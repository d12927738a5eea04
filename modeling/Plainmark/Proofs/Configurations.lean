import Plainmark.Proofs.Tasks

namespace Plainmark.Configuration
open Text

theorem load_eq : load = loadBy Yaml.Document.read Given.asText := rfl

def Spoiled (parse : Reader) (bytes : Bytes) : Prop :=
  ∃ text entries, Utf8.decode bytes = .ok text ∧ parse text = .ok (.mapping entries) ∧
    ∃ entry ∈ entries, ∀ key, entry.1 ≠ .scalar (.text key)

theorem assign_allText (done : Assignment × Bool) (entry : Yaml.Value × Yaml.Value) :
    (assign done entry).2 = true ↔ done.2 = true ∧ ∃ key, entry.1 = .scalar (.text key) := by
  unfold assign
  split
  · rename_i key same
    exact ⟨fun all => ⟨all,key,same⟩,fun both => both.1⟩
  · rename_i other
    refine iff_of_false nofun ?_
    rintro ⟨_,key,same⟩
    exact other key same

theorem assigned_allText (entries : List (Yaml.Value × Yaml.Value)) :
    (assigned entries).2 = true ↔ ∀ entry ∈ entries, ∃ key, entry.1 = .scalar (.text key) := by
  have all : ∀ done : Assignment × Bool, (entries.foldl assign done).2 = true ↔
      done.2 = true ∧ ∀ entry ∈ entries, ∃ key, entry.1 = .scalar (.text key) := by
    induction entries with
    | nil => simp
    | cons entry entries ih =>
      intro done
      rw [List.foldl_cons,ih,assign_allText,List.forall_mem_cons,and_assoc]
  rw [assigned,all]
  exact and_iff_right rfl

variable {parse : Reader} {disk : Disk} {place : Location} {bytes : Bytes} {mode : Nat}

theorem spoiled_iff {text : Text} {value : Yaml.Value} (decoded : Utf8.decode bytes = .ok text)
    (read : parse text = .ok value) : Spoiled parse bytes ↔ ∃ entries, value = .mapping entries ∧
      ∃ entry ∈ entries, ∀ key, entry.1 ≠ .scalar (.text key) := by
  constructor
  · rintro ⟨other,entries,again,mapping,odd⟩
    obtain rfl := Except.ok.inj (again.symm.trans decoded)
    exact ⟨entries,Except.ok.inj (read.symm.trans mapping),odd⟩
  · rintro ⟨entries,rfl,odd⟩
    exact ⟨text,entries,decoded,read,odd⟩

theorem not_spoiled {text : Text} {value : Yaml.Value} (decoded : Utf8.decode bytes = .ok text)
    (read : parse text = .ok value)
    (other : ∀ entries, value = .mapping entries → entries = []) : ¬ Spoiled parse bytes := by
  rw [spoiled_iff decoded read]
  rintro ⟨entries,mapping,entry,member,_⟩
  rw [other entries mapping] at member
  cases member

theorem readDocumentBy_cases (parse : Reader)
    (found : disk.find (Path.ofText ConfigurationFault.fileName) = .ok (place,.file bytes mode)) :
    (∃ fault, readDocumentBy parse disk = .error fault ∧ fault.ofSource = true ∧
        ¬ Spoiled parse bytes) ∨
      ∃ assignment allText, readDocumentBy parse disk = .ok (assignment,allText) ∧
        (allText = false ↔ Spoiled parse bytes) := by
  unfold readDocumentBy
  dsimp only
  rw [found,Job.readText_file found]
  cases decoded : Utf8.decode bytes with
  | error fault =>
    refine .inl ⟨.undecodable fault,rfl,rfl,?_⟩
    rintro ⟨text,entries,again,_⟩
    rw [decoded] at again
    cases again
  | ok text =>
    change (∃ fault, ofDocumentBy parse text = .error fault ∧ _) ∨
      ∃ assignment allText, ofDocumentBy parse text = .ok (assignment,allText) ∧ _
    unfold ofDocumentBy
    cases read : parse text with
    | error fault =>
      refine .inl ⟨.document fault,rfl,rfl,?_⟩
      rintro ⟨other,entries,again,mapping,_⟩
      obtain rfl := Except.ok.inj (again.symm.trans decoded)
      rw [read] at mapping
      cases mapping
    | ok value =>
      cases value with
      | scalar scalar =>
        have plain := not_spoiled decoded read nofun
        dsimp only
        split
        · exact .inr ⟨[],true,rfl,iff_of_false nofun plain⟩
        · exact .inl ⟨_,rfl,rfl,plain⟩
      | sequence items =>
        have plain := not_spoiled decoded read nofun
        dsimp only
        split
        · exact .inr ⟨[],true,rfl,iff_of_false nofun plain⟩
        · exact .inl ⟨_,rfl,rfl,plain⟩
      | mapping entries =>
        right
        dsimp only
        split
        · rename_i void
          refine ⟨[],true,rfl,iff_of_false nofun (not_spoiled decoded read ?_)⟩
          intro others same
          cases same
          exact List.isEmpty_iff.mp void
        · refine ⟨(assigned entries).1,(assigned entries).2,rfl,?_⟩
          rw [spoiled_iff decoded read,← Bool.not_eq_true,assigned_allText]
          push Not
          exact ⟨fun odd => ⟨entries,rfl,odd⟩,fun ⟨_,same,odd⟩ => by cases same; exact odd⟩

theorem loadBy_cases (parse : Reader) (coerce : Coercion) (environment : Text → Option Text)
    (overrides : Assignment)
    (found : disk.find (Path.ofText ConfigurationFault.fileName) = .ok (place,.file bytes mode)) :
    (((∃ settings, loadBy parse coerce disk environment overrides = .ok settings) ∨
        ∃ fault, loadBy parse coerce disk environment overrides = .error fault ∧ fault.ofSource = true) ∧
      ¬ Spoiled parse bytes) ∨
    (loadBy parse coerce disk environment overrides = .error .keyNotText ∧ Spoiled parse bytes) := by
  unfold loadBy
  rcases readDocumentBy_cases parse found with ⟨fault,failed,told,plain⟩ |
    ⟨assignment,allText,read,spoils⟩
  · rw [failed]
    exact .inl ⟨.inr ⟨fault,rfl,told⟩,plain⟩
  · rw [read]
    cases allText with
    | false => exact .inr ⟨rfl,spoils.mp rfl⟩
    | true =>
      left
      refine ⟨?_,fun spoiled => by cases spoils.mpr spoiled⟩
      dsimp only [bind,Except.bind]
      cases Settings.ofAssignmentBy coerce (Layers.merged ⟨assignment,environment,overrides⟩) with
      | ok settings => exact .inl ⟨settings,rfl⟩
      | error complaints => exact .inr ⟨.complaints complaints,rfl,rfl⟩

end Plainmark.Configuration

namespace Plainmark.Command
open Text Plainmark.Configuration

def rootOf : Request → Option Text
  | .batch _ _ root _ => root
  | .resolve _ _ root => root

theorem run_told (session : Session) (request : Request) {fault : ConfigurationFault}
    (plain : '\x00' ∉ pathOf request)
    (failed : load session.disk session.environment (rootOverride (rootOf request)) = .error fault) :
    run session request = told session fault := by
  cases request with
  | batch task path root verbosity =>
    have clean : (Path.ofText path).holdsNul = false := Path.plain_ofText plain
    have settled : settle session root = .error (told session fault) := settle_failed failed
    rw [run_batch task clean,runBatch,settled]
  | resolve term file root =>
    have clean : (Path.ofText file).holdsNul = false := Path.plain_ofText plain
    have settled : settle session root = .error (told session fault) := settle_failed failed
    rw [run_resolve term clean,runResolve,settled]

-- With a document that is there, whatever it holds and whatever reads it, there are
-- settings, or what is wrong is told to the user and no file is touched, except
-- where the document is a mapping with a key that is no text. That key ends every
-- command with nothing told.
theorem configuration_told_iff (parse : Reader) (coerce : Coercion) (session : Session)
    (overrides : Assignment) (place : Location) (bytes : Bytes) (mode : Nat)
    (found : session.disk.find (Path.ofText ConfigurationFault.fileName) =
      .ok (place,.file bytes mode)) :
    let loaded := loadBy parse coerce session.disk session.environment overrides
    (((∃ settings, loaded = .ok settings) ∨ ∃ fault, loaded = .error fault ∧
        fault.ofSource = true ∧ told session fault =
          ⟨session.disk,[],[.inr ("Error: ".toList ++ fault.message ++ ['\n'])],1,none⟩) ↔
      ¬ Spoiled parse bytes) ∧
    (Spoiled parse bytes → loaded = .error .keyNotText ∧
      told session .keyNotText = ⟨session.disk,[],[],1,some (.configuration .keyNotText)⟩) ∧
    load = loadBy Yaml.Document.read Given.asText ∧ ∀ request fault, '\x00' ∉ pathOf request →
      load session.disk session.environment (rootOverride (rootOf request)) = .error fault →
        run session request = told session fault := by
  intro loaded
  refine ⟨?_,?_,load_eq,fun request _ => run_told session request⟩
  · rcases loadBy_cases parse coerce session.environment overrides found with
      ⟨⟨settings,read⟩ | ⟨fault,failed,source⟩,plain⟩ | ⟨failed,spoiled⟩
    · exact iff_of_true (.inl ⟨settings,read⟩) plain
    · exact iff_of_true (.inr ⟨fault,failed,source,if_pos source⟩) plain
    · refine iff_of_false ?_ (not_not.mpr spoiled)
      rintro (⟨settings,read⟩ | ⟨fault,other,source,_⟩)
      · cases failed.symm.trans read
      · cases failed.symm.trans other
        cases source
  · intro spoiled
    rcases loadBy_cases parse coerce session.environment overrides found with ⟨_,plain⟩ | ⟨failed,_⟩
    · exact absurd spoiled plain
    · exact ⟨failed,rfl⟩

def configured (document : Text) : Session :=
  ⟨⟨[],[([ConfigurationFault.fileName],.file (Utf8.encode document) 0o644),
    (["i.md".toList],.file (Utf8.encode ['x']) 0o644)]⟩,fun _ => none,Job.pagesTag⟩

def wrongLevel : Session := configured "log_level: loud\n".toList

def numberedKey : Session := configured "1: x\n".toList

theorem wrong_level_told :
    wrongLevel.disk.find (Path.ofText ConfigurationFault.fileName) =
        .ok ([ConfigurationFault.fileName],.file (Utf8.encode "log_level: loud\n".toList) 0o644) ∧
      ¬ Spoiled Yaml.Document.read (Utf8.encode "log_level: loud\n".toList) := by
  have found : wrongLevel.disk.find (Path.ofText ConfigurationFault.fileName) =
      .ok ([ConfigurationFault.fileName],.file (Utf8.encode "log_level: loud\n".toList) 0o644) := by
    decide +kernel
  obtain ⟨handled,_⟩ := configuration_told_iff Yaml.Document.read Given.asText wrongLevel []
    [ConfigurationFault.fileName] _ 0o644 found
  have failed : loadBy Yaml.Document.read Given.asText wrongLevel.disk wrongLevel.environment [] =
      .error (.complaints [(.logLevel,.badPattern)]) := by decide +kernel
  exact ⟨found,handled.mp (.inr ⟨_,failed,rfl,rfl⟩)⟩

theorem numbered_key_untold :
    numberedKey.disk.find (Path.ofText ConfigurationFault.fileName) =
        .ok ([ConfigurationFault.fileName],.file (Utf8.encode "1: x\n".toList) 0o644) ∧
      load numberedKey.disk numberedKey.environment [] = .error .keyNotText ∧
        ∀ request, '\x00' ∉ pathOf request → rootOf request = none →
          run numberedKey request =
            ⟨numberedKey.disk,[],[],1,some (.configuration .keyNotText)⟩ := by
  have found : numberedKey.disk.find (Path.ofText ConfigurationFault.fileName) =
      .ok ([ConfigurationFault.fileName],.file (Utf8.encode "1: x\n".toList) 0o644) := by
    decide +kernel
  have failed : load numberedKey.disk numberedKey.environment [] = .error .keyNotText := by
    decide +kernel
  refine ⟨found,failed,?_⟩
  intro request plain rootless
  have unset : load numberedKey.disk numberedKey.environment (rootOverride (rootOf request)) =
      .error .keyNotText := by
    rw [rootless]
    exact failed
  exact run_told numberedKey request plain unset

end Plainmark.Command
