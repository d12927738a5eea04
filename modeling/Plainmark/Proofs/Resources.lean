import Plainmark.Batch
import Plainmark.Proofs.Paths
import Plainmark.Proofs.Trees

namespace Plainmark.Resource
open Text

theorem splitAt_climb (depth : Nat) (rest : Text) : splitAt '/' (climb depth ++ rest) =
    List.replicate depth Path.dots ++ splitAt '/' rest := by
  induction depth with
  | zero => rfl
  | succ depth ih =>
    have shape : climb (depth + 1) ++ rest = Path.dots ++ '/' :: (climb depth ++ rest) := rfl
    rw [shape,splitAt_append,ih,splitAt_whole (by decide),List.replicate_succ]
    rfl

theorem namesOf_climb (depth : Nat) (rest : Text) : Path.namesOf (climb depth ++ rest) =
    List.replicate depth Path.dots ++ Path.namesOf rest := by
  have kept : ∀ name ∈ List.replicate depth Path.dots, name ≠ [] ∧ name ≠ Path.dot := by
    intro name member
    rw [List.eq_of_mem_replicate member]
    decide
  rw [Path.namesOf,splitAt_climb,List.filter_append,
    List.filter_eq_self.mpr fun name member => decide_eq_true (kept name member)]
  rfl

theorem head_climb (depth : Nat) {rest : Text} (relative : rest.head? ≠ some '/') :
    (climb depth ++ rest).head? ≠ some '/' := by
  cases depth with
  | zero => exact relative
  | succ depth =>
    have head : (climb (depth + 1) ++ rest).head? = some '.' := rfl
    rw [head]
    decide

end Plainmark.Resource

namespace Plainmark.Location
open Text

def Proper (place : Location) : Prop := ∀ name ∈ place, Path.Plain name ∧ name ≠ Path.dots

instance (place : Location) : Decidable place.Proper :=
  inferInstanceAs (Decidable (∀ name ∈ place, _))

theorem foldl_step {names : List Text} (plain : ∀ name ∈ names, name ≠ Path.dots)
    (place : Location) : names.foldl step place = place ++ names := by
  induction names generalizing place with
  | nil => rw [List.append_nil]; rfl
  | cons name names ih =>
    rw [List.foldl_cons,step,if_neg (plain name List.mem_cons_self),
      ih fun other member => plain other (List.mem_cons_of_mem _ member)]
    simp

theorem foldl_climb (place : Location) (inner : List Text) :
    (List.replicate inner.length Path.dots).foldl step (place ++ inner) = place := by
  induction inner using List.reverseRecOn with
  | nil => exact List.append_nil place
  | append_singleton inner name ih =>
    rw [List.length_append,List.length_singleton,List.replicate_succ,List.foldl_cons,step,
      if_pos rfl,← List.append_assoc,List.dropLast_concat]
    exact ih

theorem Proper.step {place : Location} (proper : place.Proper) {name : Text}
    (plain : Path.Plain name) : (step place name).Proper := by
  unfold Location.step
  split
  · exact fun other member => proper other (List.dropLast_subset _ member)
  · rename_i apart
    intro other member
    rcases List.mem_append.mp member with front | last
    · exact proper other front
    · rw [List.mem_singleton.mp last]
      exact ⟨plain,apart⟩

theorem Proper.steps {place : Location} (proper : place.Proper) {names : List Text}
    (plain : ∀ name ∈ names, Path.Plain name) : (names.foldl Location.step place).Proper := by
  induction names generalizing place with
  | nil => exact proper
  | cons name names ih =>
    obtain ⟨first,rest⟩ := List.forall_mem_cons.mp plain
    exact ih (proper.step first) rest

theorem Proper.ofPath {here : Location} (proper : here.Proper) (text : Text) :
    (ofPath here (Path.ofText text)).Proper := by
  have plain : ∀ name ∈ (Path.ofText text).names, Path.Plain name :=
    fun name listed => Path.plain_of_mem_namesOf listed
  unfold Location.ofPath
  split
  · exact proper.steps plain
  · exact Proper.steps (fun name member => by cases member) plain

theorem namesOf_text {place : Location} (proper : place.Proper) :
    Path.namesOf place.text = place := by
  have whole : place.text = [] ++ '/' :: joinWith ['/'] place := by
    unfold Location.text Path.text
    cases place <;> rfl
  rw [whole,Path.namesOf_append,Path.namesOf_joinWith fun name member => (proper name member).1]
  rfl

theorem ofPath_climb (place : Location) (inner : List Text) {rest : Text}
    (relative : rest.head? ≠ some '/') :
    ofPath (place ++ inner) (Path.ofText (Resource.climb inner.length ++ rest)) =
      (Path.namesOf rest).foldl step place := by
  rw [Path.ofText,Path.anchorOf_relative (Resource.head_climb _ relative),Resource.namesOf_climb,
    ofPath]
  dsimp only
  rw [List.foldl_append,foldl_climb]

theorem ofPath_root (path : Path) : ofPath [] path = path.names.foldl step [] := by
  unfold ofPath
  split <;> rfl

theorem ofPath_spelled {place : Location} (proper : place.Proper) (rest : Text) :
    ofPath [] (Path.ofText (place.text ++ '/' :: rest)) = (Path.namesOf rest).foldl step place := by
  have names : (Path.ofText (place.text ++ '/' :: rest)).names = place ++ Path.namesOf rest := by
    rw [Path.ofText,Path.namesOf_append,namesOf_text proper]
  rw [ofPath_root,names,List.foldl_append,foldl_step fun name member => (proper name member).2]
  rfl

end Plainmark.Location

namespace Plainmark.Path

theorem fromRoot_below {here : Location} {file root : Text} {inner : List Text}
    (clear : '\x00' ∉ file ∧ '\x00' ∉ root)
    (below : Location.ofPath here (ofText file) = Location.ofPath here (ofText root) ++ inner) :
    fromRoot here (ofText file) (ofText root) = ⟨.relative,inner⟩ := by
  rw [fromRoot,plain_ofText clear.1,plain_ofText clear.2,Location.below?_eq_some_iff.mpr below]
  rfl

end Plainmark.Path

namespace Plainmark.Glossary
open Text

theorem target_local {context : Context} {term : Text}
    (hit : context.shelf Resource.glossary term = true) : (target context term).text =
      Resource.link context.path Resource.glossary term context.settings.resourcesDir := by
  rw [target,if_pos hit]

-- The link of a file to a document at hand, followed from the folder of the
-- file, leads where the document lies below the content root. It goes up once
-- for each folder between the two.
theorem local_link_leads {here : Location} (proper : here.Proper) {file root : Text}
    (clear : '\x00' ∉ file ∧ '\x00' ∉ root) {inner : List Text} (strictly : inner ≠ [])
    (below : Location.ofPath here (Path.ofText file) =
      Location.ofPath here (Path.ofText root) ++ inner) (settings : Settings)
    (named : settings.resourcesDir ≠ []) (relative : settings.resourcesDir.head? ≠ some '/')
    (shelf : Shelf) (term : Text) (hit : shelf Resource.glossary term = true) :
    let link := (target ⟨Path.fromRoot here (Path.ofText file) (Path.ofText root),shelf,settings⟩
      term).text
    let document := settings.resourcesDir ++ "/glossary/".toList ++ term ++ ".md".toList
    link = Resource.climb (inner.length - 1) ++ document ∧
      Location.ofPath (Location.ofPath here (Path.ofText file)).dropLast (Path.ofText link) =
        Location.ofPath [] (Path.ofText
          ((Location.ofPath here (Path.ofText root)).text ++ '/' :: document)) := by
  intro link document
  have spelled : link = Resource.climb (inner.length - 1) ++ document := by
    have shape : link = Resource.link ⟨.relative,inner⟩ Resource.glossary term
        settings.resourcesDir := by
      rw [← Path.fromRoot_below clear below]
      exact target_local hit
    have middle : "/glossary/".toList = ['/'] ++ Resource.glossary ++ ['/'] := rfl
    rw [shape,Resource.link,Path.depth,Path.parts,Resource.fileName]
    simp only [document,middle,List.append_assoc]
  have start : document.head? ≠ some '/' := by
    obtain ⟨c,rest,shape⟩ := List.exists_cons_of_ne_nil named
    rw [shape] at relative
    simpa [document,shape] using relative
  obtain ⟨folders,page,rfl⟩ : ∃ folders page, inner = folders ++ [page] := by
    rcases List.eq_nil_or_concat inner with rfl | ⟨folders,page,rfl⟩
    · exact absurd rfl strictly
    · exact ⟨folders,page,List.concat_eq_append⟩
  have depth : (folders ++ [page]).length - 1 = folders.length := by simp
  refine ⟨spelled,?_⟩
  rw [spelled,depth,below,← List.append_assoc,List.dropLast_concat,
    Location.ofPath_climb _ _ start,Location.ofPath_spelled (proper.ofPath root)]

theorem nested_link_leads :
    let here : Location := ["home".toList,"docs".toList]
    let file := "./content//guide/../guide/page.md".toList
    let inner := ["guide".toList,"page.md".toList]
    let link := (target ⟨Path.fromRoot here (Path.ofText file) (Path.ofText "content/".toList),
      fun _ _ => true,{}⟩ "css/../dom".toList).text
    (here.Proper ∧ ('\x00' ∉ file ∧ '\x00' ∉ "content/".toList) ∧ inner ≠ [] ∧
      Location.ofPath here (Path.ofText file) =
        Location.ofPath here (Path.ofText "content/".toList) ++ inner) ∧
      link = Resource.climb 1 ++ "resources/glossary/css/../dom.md".toList ∧
      Location.ofPath (Location.ofPath here (Path.ofText file)).dropLast (Path.ofText link) =
        Location.ofPath [] (Path.ofText ("/home/docs/content".toList ++
          '/' :: "resources/glossary/css/../dom.md".toList)) := by
  intro here file inner link
  have proper : here.Proper := by decide
  have clear : '\x00' ∉ file ∧ '\x00' ∉ "content/".toList := by decide
  have below : Location.ofPath here (Path.ofText file) =
      Location.ofPath here (Path.ofText "content/".toList) ++ inner := by decide
  have strictly : inner ≠ [] := by decide
  exact ⟨⟨proper,clear,strictly,below⟩,local_link_leads proper clear strictly below {}
    (by decide) (by decide) (fun _ _ => true) "css/../dom".toList rfl⟩

end Plainmark.Glossary

namespace Plainmark.Disk
open Text
variable {disk : Disk} {place final : Location}

-- One part between the slashes of a spelled path, followed from a folder. The
-- empty part and the single dot lead to the folder itself.
def enter (disk : Disk) (place : Location) (part : Text) : Option Location :=
  if disk.entry? place ≠ some .folder then none
  else if part = [] ∨ part = Path.dot then some place
  else if part = Path.dots then some place.dropLast
  else if nameLimit < Utf8.size part ∨ disk.entry? (place ++ [part]) = none then none
  else some (place ++ [part])

def follow (disk : Disk) (place : Location) (parts : List Text) : Option Location :=
  parts.foldlM disk.enter place

def reach (disk : Disk) (place : Location) (spelled : Text) : Option Location :=
  disk.follow (if spelled.head? = some '/' then [] else place) (splitAt '/' spelled)

def fileAt (disk : Disk) (place : Location) (spelled : Text) : Bool :=
  match disk.reach place spelled with
  | some final => (disk.entry? final).any fun entry => !entry.isFolder
  | none => false

theorem enter_folder {part : Text} {next : Location} (entered : disk.enter place part = some next) :
    disk.entry? place = some .folder := by
  rw [enter] at entered
  split at entered
  · cases entered
  · rename_i folder
    exact not_not.mp folder

theorem enter_empty {part : Text} (empty : part = [] ∨ part = Path.dot)
    (folder : disk.entry? place = some .folder) : disk.enter place part = some place := by
  rw [enter,if_neg (not_not.mpr folder),if_pos empty]

theorem enter_dots (folder : disk.entry? place = some .folder) :
    disk.enter place Path.dots = some place.dropLast := by
  rw [enter,if_neg (not_not.mpr folder),if_neg (by decide),if_pos rfl]

theorem enter_name {part : Text} (filled : part ≠ [] ∧ part ≠ Path.dot) (apart : part ≠ Path.dots)
    {next : Location} : disk.enter place part = some next ↔ disk.entry? place = some .folder ∧
      Utf8.size part ≤ nameLimit ∧ (disk.entry? (place ++ [part])).isSome ∧
        place ++ [part] = next := by
  rw [enter,if_neg (not_or.mpr filled),if_neg apart]
  by_cases folder : disk.entry? place = some .folder
  · rw [if_neg (not_not.mpr folder)]
    by_cases barred : nameLimit < Utf8.size part ∨ disk.entry? (place ++ [part]) = none
    · rw [if_pos barred]
      rcases barred with long | missing
      · simp [Nat.not_le_of_gt long]
      · simp [missing]
    · rw [if_neg barred]
      rw [not_or,Nat.not_lt] at barred
      simp [folder,barred.1,Option.isSome_iff_ne_none.mpr barred.2]
  · simp [folder]

theorem follow_append (one two : List Text) : disk.follow place (one ++ two) =
    (disk.follow place one).bind fun middle => disk.follow middle two := List.foldlM_append

theorem follow_cons {part : Text} {parts : List Text} :
    disk.follow place (part :: parts) = some final ↔
      ∃ next, disk.enter place part = some next ∧ disk.follow next parts = some final := by
  rw [follow,List.foldlM_cons]
  exact Option.bind_eq_some_iff

theorem follow_named {part : Text} (named : part ≠ [] ∧ part ≠ Path.dot) {parts : List Text} :
    disk.follow place (part :: parts) = some final ↔ disk.entry? place = some .folder ∧
      ((part = Path.dots ∧ disk.follow place.dropLast parts = some final) ∨
        (part ≠ Path.dots ∧ Utf8.size part ≤ nameLimit ∧ (disk.entry? (place ++ [part])).isSome ∧
          disk.follow (place ++ [part]) parts = some final)) := by
  rw [follow_cons]
  by_cases dots : part = Path.dots
  · subst dots
    constructor
    · rintro ⟨next,entered,followed⟩
      have folder := enter_folder entered
      rw [enter_dots folder,Option.some.injEq] at entered
      exact ⟨folder,.inl ⟨rfl,entered ▸ followed⟩⟩
    · rintro ⟨folder,⟨_,followed⟩ | ⟨apart,_⟩⟩
      · exact ⟨_,enter_dots folder,followed⟩
      · exact absurd rfl apart
  · constructor
    · rintro ⟨next,entered,followed⟩
      obtain ⟨folder,short,stands,rfl⟩ := (enter_name named dots).mp entered
      exact ⟨folder,.inr ⟨dots,short,stands,followed⟩⟩
    · rintro ⟨folder,⟨same,_⟩ | ⟨_,short,stands,followed⟩⟩
      · exact absurd same dots
      · exact ⟨_,(enter_name named dots).mpr ⟨folder,short,stands,rfl⟩,followed⟩

theorem folder_of_walk {names : List Text} (further : names ≠ [])
    (walked : disk.walk place names = .ok final) : disk.entry? place = some .folder := by
  cases names with
  | nil => exact absurd rfl further
  | cons name names => exact (walk_cons.mp walked).1

-- Empty parts and single dots may be dropped beforehand where a name follows
-- them, since its folder is asked for in any case.
theorem follow_iff_walk {parts : List Text} {last : Text} (plain : Path.Plain last) :
    disk.follow place (parts ++ [last]) = some final ↔ disk.walk place
      ((parts ++ [last]).filter fun name => name ≠ [] ∧ name ≠ Path.dot) = .ok final := by
  have kept : ([last] : List Text).filter (fun name => name ≠ [] ∧ name ≠ Path.dot) = [last] :=
    List.filter_cons_of_pos (by simpa using ⟨plain.1,plain.2.1⟩)
  induction parts generalizing place with
  | nil =>
    rw [List.nil_append,kept,follow_named ⟨plain.1,plain.2.1⟩,walk_cons]
    simp only [follow,List.foldlM_nil,walk,Option.pure_def,Option.some.injEq,Except.ok.injEq]
  | cons part parts ih =>
    rw [List.cons_append]
    by_cases empty : part = [] ∨ part = Path.dot
    · have dropped : ¬ (part ≠ [] ∧ part ≠ Path.dot) := fun both => empty.elim both.1 both.2
      rw [List.filter_cons_of_neg (by simpa using dropped),follow_cons]
      constructor
      · rintro ⟨next,entered,followed⟩
        rw [enter_empty empty (enter_folder entered)] at entered
        cases entered
        exact ih.mp followed
      · intro walked
        have folder := folder_of_walk (by rw [List.filter_append,kept]; simp) walked
        exact ⟨place,enter_empty empty folder,ih.mpr walked⟩
    · have named : part ≠ [] ∧ part ≠ Path.dot := not_or.mp empty
      rw [List.filter_cons_of_pos (by simpa using named),follow_named named,walk_cons]
      simp only [ih]

theorem fileAt_iff {spelled : Text} : disk.fileAt place spelled = true ↔ ∃ final bytes mode,
    disk.reach place spelled = some final ∧ disk.entry? final = some (.file bytes mode) := by
  unfold fileAt
  constructor
  · intro file
    split at file
    · rename_i final reached
      cases stands : disk.entry? final with
      | none =>
        rw [stands] at file
        cases file
      | some entry =>
        rw [stands] at file
        cases entry with
        | folder => cases file
        | file bytes mode => exact ⟨final,bytes,mode,reached,stands⟩
    · cases file
  · rintro ⟨final,bytes,mode,reached,stands⟩
    rw [reached]
    simp [stands,Entry.isFolder]

theorem start_ofText (disk : Disk) (text : Text) : disk.start (Path.ofText text) =
    if text.head? = some '/' then [] else disk.here := by
  unfold start
  split
  · rename_i relative
    rw [if_neg fun rooted => Path.anchorOf_rooted rooted relative]
  · rename_i anchored
    rw [if_pos (not_not.mp fun relative => anchored (Path.anchorOf_relative relative))]

theorem reach_iff_walk {text : Text} : disk.reach place (Resource.fileName text) = some final ↔
    disk.walk (if (Resource.fileName text).head? = some '/' then [] else place)
      (Path.namesOf (Resource.fileName text)) = .ok final := by
  obtain ⟨pieces,last,clear,split⟩ :=
    splitAt_ending '/' text (by decide : '/' ∉ ".md".toList)
  have plain : Path.Plain (last ++ ".md".toList) := by
    refine ⟨by simp,fun same => ?_,by simp [clear]⟩
    have length := congrArg List.length same
    simp [Path.dot] at length
  rw [reach,Path.namesOf,Resource.fileName,split]
  exact follow_iff_walk plain

theorem Sound.follow_climb (sound : disk.Sound) (place : Location) {inner : List Text}
    (stands : disk.entry? (place ++ inner) = some .folder) :
    disk.follow (place ++ inner) (List.replicate inner.length Path.dots) = some place := by
  induction inner using List.reverseRecOn with
  | nil =>
    rw [List.append_nil]
    rfl
  | append_singleton inner name ih =>
    rw [List.length_append,List.length_singleton,List.replicate_succ]
    refine follow_cons.mpr ⟨_,enter_dots stands,?_⟩
    rw [← List.append_assoc] at stands ⊢
    rw [List.dropLast_concat]
    exact ih (sound.step stands).1

end Plainmark.Disk

namespace Plainmark.Resource
open Text

-- How a document is spelled below a folder, and what a look-up takes for it: a
-- name that begins with a slash replaces the folder.
def spelled (root category name : Text) : Text :=
  root ++ '/' :: category ++ '/' :: fileName name

def sought (root category name : Text) : Text :=
  if name.head? = some '/' then fileName name else spelled root category name

theorem spelled_eq (root category name : Text) :
    spelled root category name = fileName (root ++ '/' :: category ++ '/' :: name) := by
  simp [spelled,fileName]

theorem head_fileName (name : Text) :
    (fileName name).head? = some '/' ↔ name.head? = some '/' := by
  cases name with
  | nil => decide
  | cons c name => exact Iff.rfl

theorem path_sought (disk : Disk) {root category : Text} (rooted : root ≠ [])
    (plain : Path.Plain category) (name : Text) :
    (path (Path.ofText root) category name).names = Path.namesOf (sought root category name) ∧
      disk.start (path (Path.ofText root) category name) =
        if (sought root category name).head? = some '/' then [] else disk.here := by
  have relative : (Path.ofText category).anchor = .relative :=
    Path.anchorOf_relative fun slash => plain.2.2 (List.mem_of_head? slash)
  by_cases slash : name.head? = some '/'
  · have anchored := Path.anchorOf_rooted ((head_fileName name).mpr slash)
    have whole : path (Path.ofText root) category name = Path.ofText (fileName name) := by
      rw [path,Path.join]
      split
      · rename_i same
        exact absurd same anchored
      · rfl
    rw [whole,sought,if_pos slash]
    exact ⟨rfl,Disk.start_ofText disk _⟩
  · have inside : (Path.ofText (fileName name)).anchor = .relative :=
      Path.anchorOf_relative fun head => slash ((head_fileName name).mp head)
    have whole : path (Path.ofText root) category name = ⟨(Path.ofText root).anchor,
        Path.namesOf root ++ Path.namesOf category ++ Path.namesOf (fileName name)⟩ := by
      rw [path,Path.join,inside]
      dsimp only
      rw [Path.join,relative]
      rfl
    rw [whole,sought,if_neg slash,spelled]
    refine ⟨?_,?_⟩
    · rw [Path.namesOf_append,Path.namesOf_append]
    · obtain ⟨c,rest,rfl⟩ := List.exists_cons_of_ne_nil rooted
      exact Disk.start_ofText disk (c :: rest)

end Plainmark.Resource

namespace Plainmark.Disk
open Text

theorem shelf_iff_sought (disk : Disk) {root category : Text} (rooted : root ≠ [])
    (plain : Path.Plain category) (name : Text) :
    disk.shelf (Path.ofText root) category name = true ↔
      ((Resource.path (Path.ofText root) category name).holdsNul = false ∧
        Utf8.size (Resource.path (Path.ofText root) category name).text ≤ pathLimit) ∧
      disk.fileAt disk.here (Resource.sought root category name) = true := by
  obtain ⟨names,start⟩ := Resource.path_sought disk rooted plain name
  have ending : ∃ text, Resource.sought root category name = Resource.fileName text := by
    unfold Resource.sought
    split
    · exact ⟨name,rfl⟩
    · exact ⟨_,Resource.spelled_eq root category name⟩
  obtain ⟨text,same⟩ := ending
  rw [shelf,isFile_iff,fileAt_iff,names,start,same]
  simp only [reach_iff_walk]

theorem Sound.fileAt_link {disk : Disk} (sound : disk.Sound) {contentRoot folder : Text}
    (filled : contentRoot ≠ []) (named : folder ≠ []) (relative : folder.head? ≠ some '/')
    {top : Location} (reached : disk.reach disk.here contentRoot = some top) {inner : List Text}
    (stands : disk.entry? (top ++ inner) = some .folder) (page category name : Text) :
    disk.fileAt (top ++ inner) (Resource.link ⟨.relative,inner ++ [page]⟩ category name folder) =
      disk.fileAt disk.here
        (Resource.spelled (contentRoot ++ '/' :: folder) category name) := by
  have rest : (Resource.spelled folder category name).head? ≠ some '/' := by
    obtain ⟨c,more,rfl⟩ := List.exists_cons_of_ne_nil named
    exact relative
  have link : Resource.link ⟨.relative,inner ++ [page]⟩ category name folder =
      Resource.climb inner.length ++ Resource.spelled folder category name := by
    simp [Resource.link,Resource.spelled,Path.depth,Path.parts]
  have split : Resource.spelled (contentRoot ++ '/' :: folder) category name =
      contentRoot ++ '/' :: Resource.spelled folder category name := by
    simp [Resource.spelled]
  have head : (contentRoot ++ '/' :: Resource.spelled folder category name).head? =
      contentRoot.head? := by
    obtain ⟨c,more,rfl⟩ := List.exists_cons_of_ne_nil filled
    rfl
  have up := sound.follow_climb top stands
  rw [reach] at reached
  rw [link,split,fileAt,fileAt,reach,reach,if_neg (Resource.head_climb _ rest),head,
    Resource.splitAt_climb,splitAt_append,follow_append,follow_append,up,reached]

-- A look-up says yes exactly where the path that it takes is short enough and
-- spells the way to a file; that is the path below the folder, except for a
-- name with a slash in front. The link of a page leads from the folder of the
-- page along the path below the folder of documents, for every name.
theorem shelf_iff_fileAt (disk : Disk) {root category : Text} (rooted : root ≠ [])
    (plain : Path.Plain category) (name : Text) :
    (disk.shelf (Path.ofText root) category name = true ↔
      ((Resource.path (Path.ofText root) category name).holdsNul = false ∧
        Utf8.size (Resource.path (Path.ofText root) category name).text ≤ pathLimit) ∧
      disk.fileAt disk.here (Resource.sought root category name) = true) ∧
    ∀ (contentRoot folder page : Text) (top : Location) (inner : List Text), disk.Sound →
      contentRoot ≠ [] → folder ≠ [] → folder.head? ≠ some '/' →
      root = contentRoot ++ '/' :: folder → disk.reach disk.here contentRoot = some top →
      disk.entry? (top ++ inner) = some .folder →
        disk.fileAt (top ++ inner)
            (Resource.link ⟨.relative,inner ++ [page]⟩ category name folder) =
          disk.fileAt disk.here (Resource.spelled root category name) := by
  refine ⟨shelf_iff_sought disk rooted plain name,?_⟩
  intro contentRoot folder page top inner sound filled named relative whole reached stands
  rw [whole]
  exact sound.fileAt_link filled named relative reached stands page category name

def site : Text := "site".toList

def library : Disk :=
  ⟨[site],[([site],.folder),([site,"guide".toList],.folder),([site,"resources".toList],.folder),
    ([site,"resources".toList,Resource.glossary],.folder),
    ([site,"resources".toList,Resource.glossary,"x.md".toList],.file (Utf8.encode ['x']) 0o644),
    (["notes.md".toList],.file (Utf8.encode ['y']) 0o644)]⟩

theorem library_document_found : "./resources".toList ≠ [] ∧ Path.Plain Resource.glossary ∧
    (library.shelf (Path.ofText "./resources".toList) Resource.glossary ['x'] = true ↔
      ((Resource.path (Path.ofText "./resources".toList) Resource.glossary ['x']).holdsNul = false ∧
        Utf8.size (Resource.path (Path.ofText "./resources".toList) Resource.glossary ['x']).text ≤
          pathLimit) ∧
      library.fileAt [site] "./resources/glossary/x.md".toList = true) ∧
    library.fileAt [site,"guide".toList] "../resources/glossary/x.md".toList =
      library.fileAt [site] "./resources/glossary/x.md".toList := by
  have rooted : "./resources".toList ≠ [] := by decide
  have plain : Path.Plain Resource.glossary := by decide
  obtain ⟨found,linked⟩ := shelf_iff_fileAt library rooted plain ['x']
  refine ⟨rooted,plain,found,?_⟩
  exact linked ".".toList "resources".toList "page.md".toList [site] ["guide".toList]
    (by decide +kernel) (by decide) (by decide) (by decide) (by decide) (by decide +kernel)
    (by decide +kernel)

theorem slashed_name_leaves_folder :
    (library.fileAt [site] (Resource.spelled "resources".toList Resource.glossary "/x".toList) = true ∧
      library.shelf (Path.ofText "resources".toList) Resource.glossary "/x".toList = false) ∧
    library.shelf (Path.ofText "resources".toList) Resource.glossary "/notes".toList = true ∧
      library.fileAt [site]
        (Resource.spelled "resources".toList Resource.glossary "/notes".toList) = false := by
  decide +kernel

end Plainmark.Disk
