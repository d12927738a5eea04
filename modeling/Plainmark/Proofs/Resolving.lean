import Plainmark.Proofs.Mentions
import Plainmark.Proofs.Resources
import Plainmark.Proofs.Tasks

namespace Plainmark.Conversion

def rooted (contentRoot : Text) : Settings := { ({} : Settings) with contentRoot := contentRoot }

theorem apply_rooted (path : Path) (shelf : Shelf) (contentRoot : Text) (stage : Stage)
    (text : Text) :
    stage.apply ⟨path,shelf,rooted contentRoot⟩ text = stage.apply (.standard path shelf) text := by
  cases stage <;> rfl

theorem convert_rooted (path : Path) (shelf : Shelf) (contentRoot text : Text) :
    (convert ⟨path,shelf,rooted contentRoot⟩ text).text = once path shelf text := by
  unfold once convert
  rw [through_text,through_text]
  apply List.foldl_ext
  intro done stage _
  rw [apply_rooted]

end Plainmark.Conversion

namespace Plainmark.Disk
open Text
variable {disk : Disk} {path file : Path} {folder place : Location}

theorem Sound.discovered_below (sound : disk.Sound) (found : disk.find path = .ok (folder,.folder))
    (spellable : disk.Spellable path folder) {names : List Text} {bytes : Bytes} {mode : Nat}
    (stands : disk.find ⟨path.anchor,path.names ++ names⟩ = .ok (place,.file bytes mode))
    (downward : ∀ name ∈ names, name ≠ Path.dots) (document : names.getLast?.any isDocument = true) :
    ∃ paths, disk.discover path = .ok paths ∧ ⟨path.anchor,path.names ++ names⟩ ∈ paths := by
  obtain ⟨_,located,there⟩ := find_eq_ok_iff.mp stands
  obtain ⟨_,walked⟩ := locate_eq_ok_iff.mp located
  obtain ⟨_,above,_⟩ := find_eq_ok_iff.mp found
  obtain ⟨_,upper⟩ := locate_eq_ok_iff.mp above
  obtain ⟨middle,first,rest⟩ := walk_split walked
  have same : middle = folder := Except.ok.inj (first.symm.trans upper)
  subst same
  have lexical := walk_lexical rest
  rw [Location.foldl_step downward] at lexical
  have listed : names ∈ disk.documentsBelow middle :=
    (mem_documentsBelow_iff sound).mpr ⟨document,bytes,mode,lexical ▸ there⟩
  refine ⟨_,discover_folder found sound spellable,?_⟩
  exact List.mem_map_of_mem (List.mem_mergeSort.mpr listed)

theorem spellable_of_discovered {paths : List Path} (sound : disk.Sound)
    (found : disk.find path = .ok (folder,.folder)) (discovered : disk.discover path = .ok paths) :
    disk.Spellable path folder := by
  rw [discover_eq found] at discovered
  cases long : disk.overlong? path folder with
  | none => exact (overlong?_eq_none_iff sound found).mp long
  | some entry =>
    rw [long] at discovered
    cases discovered

theorem Sound.listed_discovered {tag : Text} {paths : List Path} {bytes : Bytes} {mode : Nat}
    (sound : disk.Sound) (discovered : disk.discover path = .ok paths) (member : file ∈ paths)
    (stands : disk.find file = .ok (place,.file bytes mode)) (untagged : disk.Untagged tag path) :
    path.holdsNul = false ∧ disk.Listed tag paths := by
  cases found : disk.find path with
  | ok there =>
    obtain ⟨folder,entry⟩ := there
    refine ⟨(find_eq_ok_iff.mp found).1,?_⟩
    cases entry with
    | folder =>
      have spellable := spellable_of_discovered sound found discovered
      obtain ⟨others,same,listed⟩ := sound.listed found spellable untagged
      obtain rfl := Except.ok.inj (discovered.symm.trans same)
      exact listed
    | file bytes mode =>
      obtain rfl := Except.ok.inj (discovered.symm.trans (discover_file found))
      exact sound.listed_file found untagged
  | error trouble =>
    rw [discover_unfound found] at discovered
    cases settles : settle (.error trouble : Except Trouble Unit) with
    | error other =>
      rw [settles] at discovered
      cases discovered
    | ok answer =>
      rw [settles] at discovered
      cases discovered
      rw [List.mem_singleton.mp member,found] at stands
      cases stands

theorem fromRoot_found {root : Path} {entry : Entry} {inner : List Text}
    (found : disk.find path = .ok (place,entry)) (plain : root.holdsNul = false)
    (inside : place = Location.ofPath disk.here root ++ inner) :
    Path.fromRoot disk.here path root = ⟨.relative,inner⟩ := by
  obtain ⟨clean,located,_⟩ := find_eq_ok_iff.mp found
  obtain ⟨_,walked⟩ := locate_eq_ok_iff.mp located
  have lexical : Location.ofPath disk.here path = place := walk_lexical walked
  unfold Path.fromRoot
  rw [clean,plain,lexical,Location.below?_eq_some_iff.mpr inside]
  rfl

end Plainmark.Disk

namespace Plainmark.Job
open Text
variable {job : Job} {disk now : Disk} {paths : List Path} {path : Path} {place : Location}
  {bytes : Bytes} {mode : Nat} {before : Text}

theorem expected?_changed (found : disk.find path = .ok (place,.file (Utf8.encode before) mode))
    (changes : job.rewritten disk path before ≠ before) : job.expected? disk path =
      if disk.Crowded job.tag path then none
      else some ⟨path,before,job.rewritten disk path before,true⟩ := by
  rw [job.expected?_eq found,Utf8.decode_eq_ok_iff.mpr rfl]
  exact if_neg (Ne.symm changes)

theorem fails_iff_crowded (found : disk.find path = .ok (place,.file (Utf8.encode before) mode))
    (changes : job.rewritten disk path before ≠ before) :
    job.Fails disk path ↔ disk.Crowded job.tag path := by
  rw [← expected?_eq_none_iff found,expected?_changed found changes]
  by_cases crowded : disk.Crowded job.tag path
  · exact iff_of_true (if_pos crowded) crowded
  · rw [if_neg crowded]
    exact iff_of_false nofun crowded

theorem Reflects.place_of (reflects : job.Reflects disk paths.reverse now)
    (listed : disk.Listed job.tag paths) (member : path ∈ paths)
    (found : disk.find path = .ok (place,.file (Utf8.encode before) mode))
    (changes : job.rewritten disk path before ≠ before) :
    now.entry? place = some (.file (Utf8.encode (if disk.Crowded job.tag path then before
      else job.rewritten disk path before)) mode) := by
  obtain ⟨_,located,stands⟩ := Disk.find_eq_ok_iff.mp found
  have expected := expected?_changed found changes
  by_cases crowded : disk.Crowded job.tag path
  · rw [if_pos crowded] at expected
    rw [if_pos crowded,← stands]
    apply reflects.kept
    intro other earlier elsewhere
    have same := listed.apart other (List.mem_reverse.mp earlier) path member
      (elsewhere.trans located.symm)
    rwa [same]
  · rw [if_neg crowded] at expected
    rw [if_neg crowded]
    exact reflects.written path (List.mem_reverse.mpr member) _ expected place _ mode found

theorem rewritten_mention (contentRoot : Text) (writes : Bool) (tag : Text) (disk : Disk)
    (path : Path) {term : Text} (named : term ≠ []) (free : Free "\"\x7b[]<".toList term) :
    (onDisk (Conversion.rooted contentRoot) writes tag).rewritten disk path (Glossary.mention term) =
      Link.source ⟨term,(Glossary.target ((onDisk (Conversion.rooted contentRoot) writes tag).context
        disk path) term).text⟩ := by
  have plain : Free starters [] := by decide
  have mentioned := Glossary.once_mention
    (Path.fromRoot disk.here path (Path.ofText contentRoot))
    (disk.shelf (Conversion.rooted contentRoot).resourcesPath) plain named free
  rw [← Family.target_standard,if_neg (by simp),List.nil_append,List.nil_append] at mentioned
  exact (Conversion.convert_rooted _ _ contentRoot _).trans mentioned

end Plainmark.Job

namespace Plainmark.Command
open Text Conversion
variable {session : Session} {file path : Text} {root : Option Text} {settings : Settings}

theorem resolve_finished (term : Text)
    (configured : Configuration.load session.disk session.environment (rootOverride root) =
      .ok settings)
    (plain : (Path.ofText file).holdsNul = false) :
    ∃ log, run session (.resolve term file root) = ⟨session.disk,
      (Glossary.target ((Job.onDisk settings false session.tag).context session.disk
        (Path.ofText file)) term).text ++ ['\n'],log,0,none⟩ := by
  rw [run_resolve term plain]
  unfold runResolve
  rw [settle_ok configured]
  exact ⟨_,rfl⟩

-- What a fix leaves of a file that it rewrites. It warns of the file exactly when
-- there is no room for its temporary copy, and the file is then as before.
structure Fixed (session : Session) (outcome : Outcome) (file : Path) (place : Location)
    (mode : Nat) (before after : Text) : Prop where
  ended : outcome.crash = none
  warned : ∃ failed, Warns outcome failed ∧
    (file ∈ failed ↔ session.disk.Crowded session.tag file)
  holds : outcome.disk.entry? place = some (.file (Utf8.encode
    (if session.disk.Crowded session.tag file then before else after)) mode)

theorem fix_fixed {listed : Path} {paths : List Path} {place : Location} {mode : Nat}
    {before : Text} (verbosity : Nat) (sound : session.disk.Sound)
    (configured : Configuration.load session.disk session.environment (rootOverride root) =
      .ok settings)
    (discovered : session.disk.discover (Path.ofText path) = .ok paths) (member : listed ∈ paths)
    (untagged : session.disk.Untagged session.tag (Path.ofText path))
    (found : session.disk.find listed = .ok (place,.file (Utf8.encode before) mode))
    (changes : (Job.onDisk settings true session.tag).rewritten session.disk listed before ≠ before) :
    Fixed session (run session (.batch .fix path root verbosity)) listed place mode before
      ((Job.onDisk settings true session.tag).rewritten session.disk listed before) := by
  obtain ⟨plain,files⟩ := sound.listed_discovered discovered member found untagged
  obtain ⟨settled,reflects⟩ :=
    Job.files_settled (Job.onDisk_steady settings true session.tag) rfl files
  have begun : (Job.onDisk settings true session.tag).run session.disk (Path.ofText path) =
      (Job.onDisk settings true session.tag).runFiles ⟨session.disk,[],[],[]⟩ paths := by
    rw [Job.run,discovered]
  have ran : (Job.onDisk settings true session.tag).run session.disk (Path.ofText path) = ⟨_,none⟩ :=
    begun.trans (congrArg (BatchOutcome.mk _) settled.whole)
  rw [run_finished .fix configured plain ran]
  refine ⟨rfl,⟨_,warns_finished rfl,?_⟩,reflects.place_of files member found changes⟩
  rw [settled.failing listed member]
  exact Job.fails_iff_crowded found changes

-- Two paths of one file that the site sees alike: they are the same, or the file
-- lies below the root.
def SeenAlike (session : Session) (contentRoot : Text) (place : Location) (one other : Path) : Prop :=
  session.disk.find one = session.disk.find other ∧
    (one = other ∨ (Path.ofText contentRoot).holdsNul = false ∧
      ∃ inner, place = Location.ofPath session.disk.here (Path.ofText contentRoot) ++ inner)

theorem SeenAlike.context_eq {contentRoot : Text} {place : Location} {entry : Entry}
    {one other : Path} (alike : SeenAlike session contentRoot place one other)
    (found : session.disk.find other = .ok (place,entry)) (writes : Bool) :
    (Job.onDisk (rooted contentRoot) writes session.tag).context session.disk one =
      (Job.onDisk (rooted contentRoot) false session.tag).context session.disk other := by
  have seen : Path.fromRoot session.disk.here one (Path.ofText contentRoot) =
      Path.fromRoot session.disk.here other (Path.ofText contentRoot) := by
    obtain ⟨same,rfl | ⟨plain,inner,inside⟩⟩ := alike
    · rfl
    · rw [Disk.fromRoot_found (same.trans found) plain inside,
        Disk.fromRoot_found found plain inside]
  exact congrArg (fun path : Path => (⟨path,_,_⟩ : Context)) seen

-- Whatever spelling a file has, and wherever the root of the site is, the link
-- that is told for the file is the one that a fix puts into it, whether the file
-- is given to the fix or met below a folder.
theorem resolve_tells_fix (session : Session) (term file : Text) (root : Option Text)
    (settings : Settings) (place : Location) (mode : Nat) (sound : session.disk.Sound)
    (configured : Configuration.load session.disk session.environment (rootOverride root) =
      .ok settings)
    (standard : settings = rooted settings.contentRoot) (named : term ≠ [])
    (free : Free "\"\x7b[]<".toList term)
    (found : session.disk.find (Path.ofText file) =
      .ok (place,.file (Utf8.encode (Glossary.mention term)) mode)) :
    ∃ link log, run session (.resolve term file root) = ⟨session.disk,link ++ ['\n'],log,0,none⟩ ∧
      (∀ path paths verbosity, session.disk.discover (Path.ofText path) = .ok paths →
        ∀ listed ∈ paths, SeenAlike session settings.contentRoot place listed (Path.ofText file) →
          session.disk.Untagged session.tag (Path.ofText path) →
            Fixed session (run session (.batch .fix path root verbosity)) listed place mode
              (Glossary.mention term) (Link.source ⟨term,link⟩)) ∧
      session.disk.discover (Path.ofText file) = .ok [Path.ofText file] ∧
      ∀ path folder names, session.disk.find (Path.ofText path) = .ok (folder,.folder) →
        session.disk.Spellable (Path.ofText path) folder →
          Path.ofText file = ⟨(Path.ofText path).anchor,(Path.ofText path).names ++ names⟩ →
            (∀ name ∈ names, name ≠ Path.dots) → names.getLast?.any Disk.isDocument = true →
              ∃ paths, session.disk.discover (Path.ofText path) = .ok paths ∧
                Path.ofText file ∈ paths := by
  obtain ⟨log,resolved⟩ := resolve_finished term configured
    (Disk.find_eq_ok_iff.mp found).1
  refine ⟨_,log,resolved,?_,Disk.discover_file found,?_⟩
  · intro path paths verbosity discovered listed member alike untagged
    have made := Job.rewritten_mention settings.contentRoot true session.tag session.disk listed
      named free
    rw [alike.context_eq found true,← standard] at made
    have changes : (Job.onDisk settings true session.tag).rewritten session.disk listed
        (Glossary.mention term) ≠ Glossary.mention term := by
      rw [made]
      intro same
      cases (List.cons.inj same).1
    have fixed := fix_fixed verbosity sound configured discovered member untagged
      (alike.1.trans found) changes
    rwa [made] at fixed
  · intro path folder names given spellable spelled downward document
    rw [spelled] at found ⊢
    exact sound.discovered_below given spellable found downward document

def siteFolder : Text := "site".toList

def siteTerm : Text := "HTML".toList

def siteSession : Session where
  disk :=
    let page := Utf8.encode (Glossary.mention siteTerm)
    ⟨[],[([siteFolder],.folder),([siteFolder,"guide".toList],.folder),
      ([siteFolder,"guide".toList,"a.md".toList],.file page 0o640),
      ([siteFolder,"resources".toList],.folder),
      ([siteFolder,"resources".toList,Resource.glossary],.folder),
      ([siteFolder,"resources".toList,Resource.glossary,"HTML.md".toList],.file [] 0o644)]⟩
  environment := fun _ => none
  tag := Job.pagesTag

theorem site_link_told : siteSession.disk.Sound ∧
    Configuration.load siteSession.disk siteSession.environment (rootOverride (some siteFolder)) =
      .ok (rooted siteFolder) ∧
    ∃ link log, run siteSession (.resolve siteTerm "site//guide/a.md".toList (some siteFolder)) =
        ⟨siteSession.disk,link ++ ['\n'],log,0,none⟩ ∧
      Fixed siteSession (run siteSession (.batch .fix "site/guide".toList (some siteFolder) 0))
        (Path.ofText "site//guide/a.md".toList) [siteFolder,"guide".toList,"a.md".toList] 0o640
        (Glossary.mention siteTerm) (Link.source ⟨siteTerm,link⟩) := by
  have sound : siteSession.disk.Sound := by decide +kernel
  have configured : Configuration.load siteSession.disk siteSession.environment
      (rootOverride (some siteFolder)) = .ok (rooted siteFolder) := rfl
  have file : siteSession.disk.find (Path.ofText "site//guide/a.md".toList) =
      .ok ([siteFolder,"guide".toList,"a.md".toList],
        .file (Utf8.encode (Glossary.mention siteTerm)) 0o640) := by decide +kernel
  have folder : siteSession.disk.find (Path.ofText "site/guide".toList) =
      .ok ([siteFolder,"guide".toList],.folder) := by decide +kernel
  have spellable : siteSession.disk.Spellable (Path.ofText "site/guide".toList)
      [siteFolder,"guide".toList] :=
    (Disk.overlong?_eq_none_iff sound folder).mp (by decide +kernel)
  have untagged : siteSession.disk.Untagged siteSession.tag (Path.ofText "site/guide".toList) :=
    (Disk.untagged_iff folder sound spellable).mpr (by decide +kernel)
  obtain ⟨link,log,told,fixed,_,below⟩ := resolve_tells_fix siteSession siteTerm
    "site//guide/a.md".toList (some siteFolder) (rooted siteFolder)
    [siteFolder,"guide".toList,"a.md".toList] 0o640 sound configured rfl (by decide) (by decide) file
  obtain ⟨paths,discovered,member⟩ := below "site/guide".toList _ ["a.md".toList] folder spellable
    (by decide) (by decide) (by decide)
  exact ⟨sound,configured,link,log,told,
    fixed _ paths 0 discovered _ member ⟨rfl,.inl rfl⟩ untagged⟩

-- A page outside of the site, given by a way that goes into a folder and out of it
-- again. The link is told for the way as it is spelled, and a fix of the folder meets
-- the page by a shorter one.
def outerSession : Session where
  disk :=
    let page := Utf8.encode (Glossary.mention siteTerm)
    ⟨[],[(["a".toList],.folder),(["a".toList,"b".toList],.folder),
      (["a".toList,"c.md".toList],.file page 0o640),([siteFolder],.folder),
      ([siteFolder,"resources".toList],.folder),
      ([siteFolder,"resources".toList,Resource.glossary],.folder),
      ([siteFolder,"resources".toList,Resource.glossary,"HTML.md".toList],.file [] 0o644)]⟩
  environment := fun _ => none
  tag := Job.pagesTag

theorem outer_link_differs : outerSession.disk.Sound ∧
    Configuration.load outerSession.disk outerSession.environment (rootOverride (some siteFolder)) =
      .ok (rooted siteFolder) ∧
    outerSession.disk.find (Path.ofText "a/b/../c.md".toList) =
      .ok (["a".toList,"c.md".toList],.file (Utf8.encode (Glossary.mention siteTerm)) 0o640) ∧
    outerSession.disk.discover (Path.ofText "a".toList) = .ok [Path.ofText "a/c.md".toList] ∧
    (run outerSession (.resolve siteTerm "a/b/../c.md".toList (some siteFolder))).output =
      "../../../resources/glossary/HTML.md\n".toList ∧
    (run outerSession (.batch .fix "a".toList (some siteFolder) 0)).disk.entry?
      ["a".toList,"c.md".toList] = some (.file (Utf8.encode (Link.source
        ⟨siteTerm,"../resources/glossary/HTML.md".toList⟩)) 0o640) := by
  refine ⟨by decide +kernel,rfl,by decide +kernel,by decide +kernel,by decide +kernel,?_⟩
  decide +kernel

end Plainmark.Command
