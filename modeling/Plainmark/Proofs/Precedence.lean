import Plainmark.Proofs.Configurations

namespace Plainmark

def Locale.Small (c : Char) : Prop := 'a' ≤ c ∧ c ≤ 'z'

def Locale.Letter (c : Char) : Prop := Small c ∨ 'A' ≤ c ∧ c ≤ 'Z'

-- Two small letters, and behind them nothing or a hyphen with two to four letters.
def Locale.Shaped (text : Text) : Prop :=
  ∃ a b region, text = a :: b :: region ∧ Small a ∧ Small b ∧
    (region = [] ∨ ∃ letters, region = '-' :: letters ∧ 2 ≤ letters.length ∧
      letters.length ≤ 4 ∧ ∀ c ∈ letters, Letter c)

def Level.Named (text : Text) : Prop :=
  text = "TRACE".toList ∨ text = "DEBUG".toList ∨ text = "INFO".toList ∨
    text = "SUCCESS".toList ∨ text = "WARNING".toList ∨ text = "ERROR".toList

instance (text : Text) : Decidable (Level.Named text) := inferInstanceAs (Decidable (_ ∨ _))

def Field.Takes : Field → Text → Prop
  | .locale,text => Locale.Shaped text
  | .logLevel,text => Level.Named text
  | _,_ => True

def Settings.text (settings : Settings) : Field → Text
  | .appName => settings.appName
  | .contentRoot => settings.contentRoot
  | .resourcesDir => settings.resourcesDir
  | .domain => settings.domain
  | .locale => settings.locale.text
  | .assetsDir => settings.assetsDir
  | .logLevel => settings.logLevel.name

-- What fields are known to take values for. A document's other values are refused,
-- and what becomes of the objects that no document gives is left open.
structure Coercion.Faithful (coerce : Coercion) : Prop where
  text : ∀ text, coerce (.text text) = .ok text
  spelled : ∀ bytes text, Text.Utf8.decode bytes = .ok text → coerce (.bytes bytes) = .ok text
  broken : ∀ bytes fault, Text.Utf8.decode bytes = .error fault →
    coerce (.bytes bytes) = .error .notUnicode
  absent : coerce .absent = .error .notText
  refused : ∀ value name, Configuration.given value = .other name →
    coerce (.other name) = .error .notText

end Plainmark

namespace Plainmark.Given
open Text
variable {coerce : Coercion}

def takenBy (coerce : Coercion) : Coercion
  | .other name => coerce (.other name)
  | value => value.asText

theorem takenBy_eq (faithful : coerce.Faithful) (value : Given) :
    value.takenBy coerce = coerce value := by
  cases value with
  | text value => exact (faithful.text value).symm
  | absent => exact faithful.absent.symm
  | other name => rfl
  | bytes value =>
    change asText (.bytes value) = _
    rw [asText]
    cases decoded : Utf8.decode value with
    | ok text => exact (faithful.spelled value text decoded).symm
    | error fault => exact (faithful.broken value fault decoded).symm

theorem asText_faithful : Coercion.Faithful asText := by
  refine ⟨fun _ => rfl,?_,?_,rfl,fun _ _ _ => rfl⟩
  · intro bytes text decoded
    rw [asText,decoded]
  · intro bytes fault decoded
    rw [asText,decoded]

end Plainmark.Given

namespace Plainmark.Locale

theorem isLower_iff (c : Char) : c.isLower = true ↔ Small c := by
  change (decide ('a' ≤ c) && decide (c ≤ 'z')) = true ↔ _
  rw [Bool.and_eq_true,decide_eq_true_iff,decide_eq_true_iff]
  rfl

theorem isUpper_iff (c : Char) : c.isUpper = true ↔ 'A' ≤ c ∧ c ≤ 'Z' := by
  change decide ('A' ≤ c ∧ c ≤ 'Z') = true ↔ _
  exact decide_eq_true_iff

theorem isAlpha_iff (c : Char) : c.isAlpha = true ↔ Letter c := by
  change (c.isUpper || c.isLower) = true ↔ _
  rw [Bool.or_eq_true,isUpper_iff,isLower_iff]
  exact or_comm

theorem accepts_iff (text : Text) : accepts text = true ↔ Shaped text := by
  constructor
  · intro accepted
    unfold accepts at accepted
    split at accepted
    · rename_i a b
      obtain ⟨first,second⟩ := Bool.and_eq_true_iff.mp accepted
      exact ⟨a,b,[],rfl,(isLower_iff a).mp first,(isLower_iff b).mp second,.inl rfl⟩
    · rename_i a b region
      simp only [Bool.and_eq_true,decide_eq_true_eq,List.all_eq_true] at accepted
      obtain ⟨⟨⟨⟨first,second⟩,letters⟩,least⟩,most⟩ := accepted
      exact ⟨a,b,_,rfl,(isLower_iff a).mp first,(isLower_iff b).mp second,
        .inr ⟨region,rfl,least,most,fun c member => (isAlpha_iff c).mp (letters c member)⟩⟩
    · cases accepted
  · intro shaped
    obtain ⟨a,b,region,rfl,first,second,rest⟩ := shaped
    rcases rest with rfl | ⟨letters,rfl,least,most,all⟩
    · simp only [accepts,(isLower_iff a).mpr first,(isLower_iff b).mpr second,Bool.and_self]
    · have alpha : letters.all Char.isAlpha = true :=
        List.all_eq_true.mpr fun c member => (isAlpha_iff c).mpr (all c member)
      simp [accepts,(isLower_iff a).mpr first,(isLower_iff b).mpr second,alpha,least,most]

end Plainmark.Locale

namespace Plainmark.Level

theorem ofName?_name (level : Level) : ofName? level.name = some level := by
  cases level <;> rfl

theorem named_iff (text : Text) : Named text ↔ ∃ level : Level, level.name = text := by
  constructor
  · intro named
    rcases named with rfl | rfl | rfl | rfl | rfl | rfl
    · exact ⟨.trace,rfl⟩
    · exact ⟨.debug,rfl⟩
    · exact ⟨.info,rfl⟩
    · exact ⟨.success,rfl⟩
    · exact ⟨.warning,rfl⟩
    · exact ⟨.error,rfl⟩
  · intro known
    obtain ⟨level,rfl⟩ := known
    cases level with
    | trace => exact .inl rfl
    | debug => exact .inr (.inl rfl)
    | info => exact .inr (.inr (.inl rfl))
    | success => exact .inr (.inr (.inr (.inl rfl)))
    | warning => exact .inr (.inr (.inr (.inr (.inl rfl))))
    | error => exact .inr (.inr (.inr (.inr (.inr rfl))))

theorem ofName?_eq_some_iff {text : Text} {level : Level} :
    ofName? text = some level ↔ level.name = text := by
  constructor
  · intro found
    simpa using List.find?_some found
  · rintro rfl
    exact ofName?_name level

theorem ofName?_eq_none_iff {text : Text} : ofName? text = none ↔ ¬ Named text := by
  rw [named_iff,Option.eq_none_iff_forall_ne_some]
  constructor
  · intro unknown known
    obtain ⟨level,same⟩ := known
    exact unknown level (ofName?_eq_some_iff.mpr same)
  · intro unknown level found
    exact unknown ⟨level,ofName?_eq_some_iff.mp found⟩

end Plainmark.Level

namespace Plainmark.Field

instance (field : Field) (text : Text) : Decidable (field.Takes text) :=
  match field with
  | .locale => decidable_of_iff _ (Locale.accepts_iff text)
  | .logLevel => inferInstanceAs (Decidable (Level.Named text))
  | .appName | .contentRoot | .resourcesDir | .domain | .assetsDir => .isTrue trivial

def wrong? (coerce : Coercion) (field : Field) : Option Given → Option Complaint
  | none => none
  | some value =>
    match value.takenBy coerce with
    | .ok text => if field.Takes text then none else some .badPattern
    | .error complaint => some complaint

def settled (coerce : Coercion) (field : Field) : Option Given → Text
  | none => Settings.text {} field
  | some value => (value.takenBy coerce).toOption.getD []

theorem find_key (field : Field) :
    (all.find? fun other => other.key = field.key) = some field := by
  cases field <;> rfl

theorem key_injective {one other : Field} (same : one.key = other.key) : one = other :=
  Option.some.inj ((find_key one).symm.trans (same ▸ find_key other))

end Plainmark.Field

namespace Plainmark.Assignment

theorem get?_set (assignment : Assignment) (key other : Text) (value : Given) :
    (assignment.set key value).get? other =
      if other = key then some value else assignment.get? other := by
  rw [get?,set,List.lookup_cons]
  by_cases same : other = key
  · simp [same]
  · have apart : (other == key) = false := by simpa using same
    rw [apart,if_neg same,get?]
    exact (lookup_filter key other assignment).trans (if_neg same)

end Plainmark.Assignment

namespace Plainmark.Layers

def fromOverride? (overrides : Assignment) (key : Text) : Option Given :=
  match overrides.get? key with
  | some .absent => none
  | given => given

def fromVariable? (environment : Text → Option Text) (field : Field) : Option Given :=
  match environment field.variableName with
  | some (c :: rest) => some (.text (c :: rest))
  | _ => none

variable {environment : Text → Option Text} {overrides assignment : Assignment}

theorem get?_withVariable (field other : Field) :
    (withVariable environment assignment field).get? other.key =
      if other = field then (fromVariable? environment field).or (assignment.get? field.key)
      else assignment.get? other.key := by
  unfold withVariable fromVariable?
  by_cases same : other = field
  · subst same
    rw [if_pos rfl]
    cases environment other.variableName with
    | none => rfl
    | some value =>
      cases value with
      | nil => rfl
      | cons c rest => exact (Assignment.get?_set _ _ _ _).trans (if_pos rfl)
  · rw [if_neg same]
    have apart : other.key ≠ field.key := fun keys => same (Field.key_injective keys)
    cases environment field.variableName with
    | none => rfl
    | some value =>
      cases value with
      | nil => rfl
      | cons c rest => exact (Assignment.get?_set _ _ _ _).trans (if_neg apart)

theorem get?_variables (fields : List Field) (distinct : fields.Nodup) (field : Field) :
    (fields.foldl (withVariable environment) assignment).get? field.key =
      if field ∈ fields then (fromVariable? environment field).or (assignment.get? field.key)
      else assignment.get? field.key := by
  induction fields generalizing assignment with
  | nil => rfl
  | cons first fields ih =>
    obtain ⟨apart,rest⟩ := List.nodup_cons.mp distinct
    rw [List.foldl_cons,ih rest,get?_withVariable]
    by_cases same : field = first
    · subst same
      rw [if_neg apart,if_pos rfl,if_pos List.mem_cons_self]
    · rw [if_neg same]
      simp only [List.mem_cons,same,false_or]

theorem get?_withOverride (entry : Text × Given) (key : Text) :
    (withOverride assignment entry).get? key =
      if key = entry.1 ∧ entry.2 ≠ .absent then some entry.2 else assignment.get? key := by
  obtain ⟨name,value⟩ := entry
  cases value with
  | absent => simp [withOverride]
  | text value => simp [withOverride,Assignment.get?_set]
  | bytes value => simp [withOverride,Assignment.get?_set]
  | other name => simp [withOverride,Assignment.get?_set]

theorem fromOverride?_cons (entry : Text × Given) (key : Text) :
    fromOverride? (entry :: overrides) key =
      if key = entry.1 then (if entry.2 = .absent then none else some entry.2)
      else fromOverride? overrides key := by
  unfold fromOverride? Assignment.get?
  rw [List.lookup_cons]
  by_cases same : key = entry.1
  · simp only [same,BEq.rfl,if_true]
    cases entry.2 <;> rfl
  · have apart : (key == entry.1) = false := by simpa using same
    rw [apart,if_neg same]

theorem fromOverride?_absent {key : Text} (absent : key ∉ overrides.map Prod.fst) :
    fromOverride? overrides key = none := by
  induction overrides with
  | nil => rfl
  | cons entry overrides ih =>
    rw [List.map_cons,List.mem_cons,not_or] at absent
    rw [fromOverride?_cons,if_neg absent.1,ih absent.2]

theorem get?_overrides (distinct : (overrides.map Prod.fst).Nodup) (key : Text) :
    (overrides.foldl withOverride assignment).get? key =
      (fromOverride? overrides key).or (assignment.get? key) := by
  induction overrides generalizing assignment with
  | nil => rfl
  | cons entry overrides ih =>
    rw [List.map_cons] at distinct
    obtain ⟨apart,rest⟩ := List.nodup_cons.mp distinct
    rw [List.foldl_cons,ih rest,get?_withOverride,fromOverride?_cons]
    by_cases same : key = entry.1
    · subst same
      rw [fromOverride?_absent apart,if_pos rfl]
      by_cases nothing : entry.2 = .absent
      · rw [if_pos nothing,if_neg fun both => both.2 nothing]
      · rw [if_neg nothing,if_pos ⟨rfl,nothing⟩]
        rfl
    · rw [if_neg same,if_neg fun both => same both.1]

end Plainmark.Layers

namespace Plainmark.Configuration
open Text

-- What a document says, key by key: nothing where there is none or where it stands
-- for nothing, and else the entries of a mapping whose keys are texts.
inductive Says (parse : Reader) (disk : Disk) : List (Text × Yaml.Value) → Prop where
  | absent (missing : disk.entry? (disk.here ++ [ConfigurationFault.fileName]) = none) :
      Says parse disk []
  | void {bytes : Bytes} {mode : Nat} {text : Text} {value : Yaml.Value}
      (stands : disk.entry? (disk.here ++ [ConfigurationFault.fileName]) = some (.file bytes mode))
      (decoded : Utf8.decode bytes = .ok text) (read : parse text = .ok value)
      (nothing : value.isVoid = true) : Says parse disk []
  | mapping {bytes : Bytes} {mode : Nat} {text : Text} {entries : List (Text × Yaml.Value)}
      (stands : disk.entry? (disk.here ++ [ConfigurationFault.fileName]) = some (.file bytes mode))
      (decoded : Utf8.decode bytes = .ok text)
      (read : parse text =
        .ok (.mapping (entries.map fun entry => (.scalar (.text entry.1),entry.2)))) :
      Says parse disk entries

def documented? (entries : List (Text × Yaml.Value)) (key : Text) : Option Given :=
  (entries.reverse.lookup key).map given

-- The value that counts for a field: an override, else a variable, else what the
-- document says, be it that there is none. Where all are silent there is the default.
def effective? (entries : List (Text × Yaml.Value)) (environment : Text → Option Text)
    (overrides : Assignment) (field : Field) : Option Given :=
  ((Layers.fromOverride? overrides field.key).or (Layers.fromVariable? environment field)).or
    (documented? entries field.key)

variable {parse : Reader} {disk : Disk} {environment : Text → Option Text}
  {overrides : Assignment} {entries : List (Text × Yaml.Value)}

theorem assigned_texts (entries : List (Text × Yaml.Value)) :
    let read := assigned (entries.map fun entry => (.scalar (.text entry.1),entry.2))
    read.2 = true ∧ ∀ key, read.1.get? key = documented? entries key := by
  induction entries using List.reverseRecOn with
  | nil => exact ⟨rfl,fun _ => rfl⟩
  | append_singleton entries entry ih =>
    intro read
    obtain ⟨texts,values⟩ := ih
    have step : read = assign
        (assigned (entries.map fun entry => (.scalar (.text entry.1),entry.2)))
        (.scalar (.text entry.1),entry.2) := by
      change assigned _ = _
      rw [List.map_append]
      exact List.foldl_concat assign _ _ _
    rw [step]
    refine ⟨texts,fun key => ?_⟩
    change (Assignment.set _ entry.1 (given entry.2)).get? key = _
    rw [Assignment.get?_set,values,documented?,documented?,List.reverse_append,
      List.reverse_singleton,List.singleton_append,List.lookup_cons]
    by_cases same : key = entry.1
    · simp [same]
    · have apart : (key == entry.1) = false := by simpa using same
      rw [apart,if_neg same]

theorem get?_merged (distinct : (overrides.map Prod.fst).Nodup) {document : Assignment}
    (reads : ∀ key, document.get? key = documented? entries key) (field : Field) :
    (Layers.merged ⟨document,environment,overrides⟩).get? field.key =
      effective? entries environment overrides field := by
  have every : field ∈ Field.all := by cases field <;> decide
  rw [Layers.merged,Layers.get?_overrides distinct,
    Layers.get?_variables Field.all (by decide) field,if_pos every,reads,effective?,
    Option.or_assoc]

theorem find_document (sound : disk.Sound) :
    disk.find (Path.ofText ConfigurationFault.fileName) =
      match disk.entry? (disk.here ++ [ConfigurationFault.fileName]) with
      | some entry => .ok (disk.here ++ [ConfigurationFault.fileName],entry)
      | none => .error (.access .missing (Path.ofText ConfigurationFault.fileName)) := by
  have above : disk.find (Path.ofText ConfigurationFault.fileName).parent =
      .ok (disk.here,.folder) :=
    Disk.find_eq_ok_iff.mpr ⟨rfl,rfl,sound.here⟩
  have headed := sound.headed (by decide) rfl (by decide) above
  exact headed.find_eq (by decide) (by decide)

theorem readDocumentBy_text {bytes : Bytes} {mode : Nat} {text : Text} (sound : disk.Sound)
    (stands : disk.entry? (disk.here ++ [ConfigurationFault.fileName]) = some (.file bytes mode))
    (decoded : Utf8.decode bytes = .ok text) :
    readDocumentBy parse disk = ofDocumentBy parse text := by
  have found := find_document sound
  rw [stands] at found
  unfold readDocumentBy
  dsimp only
  rw [found,Job.readText_file found,decoded]
  rfl

theorem readDocumentBy_ok (sound : disk.Sound) (spoken : Says parse disk entries) :
    ∃ document, readDocumentBy parse disk = .ok (document,true) ∧
      ∀ key, document.get? key = documented? entries key := by
  cases spoken with
  | absent missing =>
    have found := find_document sound
    rw [missing] at found
    refine ⟨[],?_,fun _ => rfl⟩
    unfold readDocumentBy
    dsimp only
    rw [found]
    rfl
  | void stands decoded read nothing =>
    refine ⟨[],?_,fun _ => rfl⟩
    rw [readDocumentBy_text sound stands decoded,ofDocumentBy,read]
    exact if_pos nothing
  | mapping stands decoded read =>
    rw [readDocumentBy_text sound stands decoded,ofDocumentBy,read]
    dsimp only
    obtain ⟨texts,values⟩ := assigned_texts entries
    by_cases nothing : entries = []
    · subst nothing
      exact ⟨[],rfl,fun _ => rfl⟩
    · refine ⟨_,?_,values⟩
      rw [if_neg,← texts]
      simpa [Yaml.Value.isVoid] using nothing

end Plainmark.Configuration

namespace Plainmark.Settings

variable {coerce : Coercion}

def Answers (coerce : Coercion) (field : Field) (given : Option Given) (view : α → Text) :
    Except Complaint α → Prop
  | .ok value => field.wrong? coerce given = none ∧ view value = field.settled coerce given
  | .error wrong => field.wrong? coerce given = some wrong

def Parses (field : Field) (parse : Text → Except Complaint α) (view : α → Text) : Prop :=
  ∀ text, (field.Takes text → ∃ value, parse text = .ok value ∧ view value = text) ∧
    (¬ field.Takes text → parse text = .error .badPattern)

theorem Answers.complaint? {field : Field} {given : Option Given} {view : α → Text}
    {read : Except Complaint α} (answers : Answers coerce field given view read) :
    Settings.complaint? field read =
      (field.wrong? coerce given).map fun wrong => (field,wrong) := by
  cases read with
  | ok value => rw [answers.1]; rfl
  | error wrong => rw [show field.wrong? coerce given = some wrong from answers]; rfl

theorem Answers.ok {field : Field} {given : Option Given} {view : α → Text}
    {read : Except Complaint α} (answers : Answers coerce field given view read)
    (fine : field.wrong? coerce given = none) :
    ∃ value, read = .ok value ∧ view value = field.settled coerce given := by
  cases read with
  | ok value => exact ⟨value,rfl,answers.2⟩
  | error wrong => cases fine.symm.trans answers

theorem text_parses {field : Field} (takes : ∀ text, field.Takes text) :
    Parses field .ok (id : Text → Text) :=
  fun text => ⟨fun _ => ⟨text,rfl,rfl⟩,fun other => absurd (takes text) other⟩

theorem locale_parses : Parses .locale locale? Locale.text := by
  intro text
  unfold locale?
  constructor
  · intro shaped
    have accepted := (Locale.accepts_iff text).mpr shaped
    exact ⟨⟨text,accepted⟩,dif_pos accepted,rfl⟩
  · intro other
    exact dif_neg (mt (Locale.accepts_iff text).mp other)

theorem level_parses : Parses .logLevel level? Level.name := by
  intro text
  unfold level?
  constructor
  · intro named
    obtain ⟨level,same⟩ := (Level.named_iff text).mp named
    rw [Level.ofName?_eq_some_iff.mpr same]
    exact ⟨level,rfl,same⟩
  · intro other
    rw [Level.ofName?_eq_none_iff.mpr other]

theorem readBy_answers (faithful : coerce.Faithful) {field : Field}
    {parse : Text → Except Complaint α} {view : α → Text} (parses : Parses field parse view)
    (given : Option Given) {default : α} (standard : view default = Settings.text {} field) :
    Answers coerce field given view (readBy coerce parse given default) := by
  cases given with
  | none => exact ⟨rfl,standard⟩
  | some value =>
    unfold readBy
    dsimp only
    rw [← Given.takenBy_eq faithful]
    cases taken : value.takenBy coerce with
    | error complaint =>
      change Field.wrong? coerce field (some value) = some complaint
      rw [Field.wrong?,taken]
    | ok text =>
      change Answers coerce field (some value) view (parse text)
      by_cases takes : field.Takes text
      · obtain ⟨made,parsed,same⟩ := (parses text).1 takes
        rw [parsed]
        refine ⟨?_,?_⟩
        · rw [Field.wrong?,taken]
          exact if_pos takes
        · rw [Field.settled,taken]
          exact same
      · rw [(parses text).2 takes]
        change Field.wrong? coerce field (some value) = some .badPattern
        rw [Field.wrong?,taken]
        exact if_neg takes

-- What the readers of all fields answer.
structure AllAnswer (coerce : Coercion) (given : Field → Option Given) : Prop where
  appName : Answers coerce .appName (given .appName) id
    (readBy coerce .ok (given .appName) ({} : Settings).appName)
  contentRoot : Answers coerce .contentRoot (given .contentRoot) id
    (readBy coerce .ok (given .contentRoot) ({} : Settings).contentRoot)
  resourcesDir : Answers coerce .resourcesDir (given .resourcesDir) id
    (readBy coerce .ok (given .resourcesDir) ({} : Settings).resourcesDir)
  domain : Answers coerce .domain (given .domain) id
    (readBy coerce .ok (given .domain) ({} : Settings).domain)
  locale : Answers coerce .locale (given .locale) Locale.text
    (readBy coerce locale? (given .locale) ({} : Settings).locale)
  assetsDir : Answers coerce .assetsDir (given .assetsDir) id
    (readBy coerce .ok (given .assetsDir) ({} : Settings).assetsDir)
  logLevel : Answers coerce .logLevel (given .logLevel) Level.name
    (readBy coerce level? (given .logLevel) ({} : Settings).logLevel)

theorem all_answer (faithful : coerce.Faithful) (given : Field → Option Given) :
    AllAnswer coerce given := by
  have texts : ∀ field : Field, (∀ text, field.Takes text) → ∀ default : Text,
      default = Settings.text {} field →
        Answers coerce field (given field) id (readBy coerce .ok (given field) default) :=
    fun field takes default standard =>
      readBy_answers faithful (text_parses takes) (given field) standard
  exact {
    appName := texts .appName (fun _ => trivial) _ rfl
    contentRoot := texts .contentRoot (fun _ => trivial) _ rfl
    resourcesDir := texts .resourcesDir (fun _ => trivial) _ rfl
    domain := texts .domain (fun _ => trivial) _ rfl
    locale := readBy_answers faithful locale_parses _ rfl
    assetsDir := texts .assetsDir (fun _ => trivial) _ rfl
    logLevel := readBy_answers faithful level_parses _ rfl }

variable {assignment : Assignment}

theorem AllAnswer.settings (answers : AllAnswer coerce fun field => assignment.get? field.key)
    (fine : ∀ field : Field, field.wrong? coerce (assignment.get? field.key) = none) :
    ∃ settings, ofAssignmentBy coerce assignment = .ok settings ∧
      ∀ field, settings.text field = field.settled coerce (assignment.get? field.key) := by
  obtain ⟨a,readA,textA⟩ := answers.appName.ok (fine .appName)
  obtain ⟨b,readB,textB⟩ := answers.contentRoot.ok (fine .contentRoot)
  obtain ⟨c,readC,textC⟩ := answers.resourcesDir.ok (fine .resourcesDir)
  obtain ⟨d,readD,textD⟩ := answers.domain.ok (fine .domain)
  obtain ⟨e,readE,textE⟩ := answers.locale.ok (fine .locale)
  obtain ⟨f,readF,textF⟩ := answers.assetsDir.ok (fine .assetsDir)
  obtain ⟨g,readG,textG⟩ := answers.logLevel.ok (fine .logLevel)
  refine ⟨⟨a,b,c,d,e,f,g⟩,?_,?_⟩
  · unfold ofAssignmentBy
    dsimp only at readA readB readC readD readE readF readG ⊢
    rw [readA,readB,readC,readD,readE,readF,readG]
  · intro field
    cases field with
    | appName => exact textA
    | contentRoot => exact textB
    | resourcesDir => exact textC
    | domain => exact textD
    | locale => exact textE
    | assetsDir => exact textF
    | logLevel => exact textG

theorem AllAnswer.complaints (answers : AllAnswer coerce fun field => assignment.get? field.key)
    (bad : ∃ field : Field, field.wrong? coerce (assignment.get? field.key) ≠ none) :
    ofAssignmentBy coerce assignment = .error (Field.all.filterMap fun field =>
      (field.wrong? coerce (assignment.get? field.key)).map fun wrong => (field,wrong)) := by
  have listed := List.filterMap_map (l := Field.all) (g := id) (f := fun field : Field =>
    (field.wrong? coerce (assignment.get? field.key)).map fun wrong => (field,wrong))
  rw [Function.id_comp] at listed
  obtain ⟨appName,contentRoot,resourcesDir,domain,locale,assetsDir,logLevel⟩ := answers
  unfold ofAssignmentBy
  dsimp only at appName contentRoot resourcesDir domain locale assetsDir logLevel ⊢
  split
  · rename_i readA readB readC readD readE readF readG
    obtain ⟨field,bad⟩ := bad
    rw [readA] at appName
    rw [readB] at contentRoot
    rw [readC] at resourcesDir
    rw [readD] at domain
    rw [readE] at locale
    rw [readF] at assetsDir
    rw [readG] at logLevel
    cases field with
    | appName => exact absurd appName.1 bad
    | contentRoot => exact absurd contentRoot.1 bad
    | resourcesDir => exact absurd resourcesDir.1 bad
    | domain => exact absurd domain.1 bad
    | locale => exact absurd locale.1 bad
    | assetsDir => exact absurd assetsDir.1 bad
    | logLevel => exact absurd logLevel.1 bad
  · rw [appName.complaint?,contentRoot.complaint?,resourcesDir.complaint?,domain.complaint?,
      locale.complaint?,assetsDir.complaint?,logLevel.complaint?,← listed]
    rfl

theorem ofAssignmentBy_cases (faithful : coerce.Faithful) (assignment : Assignment) :
    let wrong? := fun field : Field => field.wrong? coerce (assignment.get? field.key)
    ((∀ field, wrong? field = none) ∧ ∃ settings, ofAssignmentBy coerce assignment = .ok settings ∧
      ∀ field, settings.text field = field.settled coerce (assignment.get? field.key)) ∨
    ((∃ field, wrong? field ≠ none) ∧ ofAssignmentBy coerce assignment =
      .error (Field.all.filterMap fun field => (wrong? field).map fun wrong => (field,wrong))) := by
  intro wrong?
  have answers := all_answer faithful fun field => assignment.get? field.key
  by_cases fine : ∀ field, wrong? field = none
  · exact .inl ⟨fine,answers.settings fine⟩
  · have bad := not_forall.mp fine
    exact .inr ⟨bad,answers.complaints bad⟩

theorem text_injective {one other : Settings} (same : ∀ field, one.text field = other.text field) :
    one = other := by
  obtain ⟨a,b,c,d,⟨e,_⟩,f,g⟩ := one
  obtain ⟨a',b',c',d',⟨e',_⟩,f',g'⟩ := other
  obtain rfl : a = a' := same .appName
  obtain rfl : b = b' := same .contentRoot
  obtain rfl : c = c' := same .resourcesDir
  obtain rfl : d = d' := same .domain
  obtain rfl : e = e' := same .locale
  obtain rfl : f = f' := same .assetsDir
  have levels : g = g' := by
    have names : g.name = g'.name := same .logLevel
    exact Option.some.inj ((Level.ofName?_name g).symm.trans (names ▸ Level.ofName?_name g'))
  rw [levels]

end Plainmark.Settings

namespace Plainmark.Configuration
open Text
variable {parse : Reader} {coerce : Coercion} {disk : Disk}
  {environment : Text → Option Text} {overrides : Assignment}
  {entries : List (Text × Yaml.Value)}

def complaintOn (field : Field) : Except ConfigurationFault Settings → Option Complaint
  | .error (.complaints all) => all.lookup field
  | _ => none

def complaints (coerce : Coercion) (value : Field → Option Given) : List (Field × Complaint) :=
  Field.all.filterMap fun field =>
    (field.wrong? coerce (value field)).map fun wrong => (field,wrong)

theorem lookup_complaints (value : Field → Option Given) (fields : List Field) (field : Field) :
    (fields.filterMap fun field => (field.wrong? coerce (value field)).map fun wrong =>
      (field,wrong)).lookup field =
        if field ∈ fields then field.wrong? coerce (value field) else none := by
  induction fields with
  | nil => rfl
  | cons first fields ih =>
    by_cases same : field = first
    · subst same
      rw [if_pos List.mem_cons_self]
      cases wrong : field.wrong? coerce (value field) with
      | none =>
        rw [List.filterMap_cons_none (by rw [wrong]; rfl),ih,wrong]
        exact ite_self none
      | some complaint =>
        rw [List.filterMap_cons_some (by rw [wrong]; rfl)]
        simp
    · have apart : (field == first) = false := by simpa using same
      simp only [List.mem_cons,same,false_or]
      cases wrong : first.wrong? coerce (value first) with
      | none => rw [List.filterMap_cons_none (by rw [wrong]; rfl),ih]
      | some complaint =>
        rw [List.filterMap_cons_some (by rw [wrong]; rfl),List.lookup_cons,apart,ih]

theorem loadBy_effective (faithful : coerce.Faithful) (environment : Text → Option Text)
    (sound : disk.Sound) (spoken : Says parse disk entries) (distinct : (overrides.map Prod.fst).Nodup) :
    let value := effective? entries environment overrides
    ((∀ field : Field, field.wrong? coerce (value field) = none) ∧ ∃ settings,
      loadBy parse coerce disk environment overrides = .ok settings ∧
        ∀ field, settings.text field = field.settled coerce (value field)) ∨
    ((∃ field : Field, field.wrong? coerce (value field) ≠ none) ∧
      loadBy parse coerce disk environment overrides =
        .error (.complaints (complaints coerce value))) := by
  intro value
  obtain ⟨document,read,reads⟩ := readDocumentBy_ok sound spoken
  have merged : ∀ field : Field, (Layers.merged ⟨document,environment,overrides⟩).get? field.key =
    value field := get?_merged distinct reads
  have answered := Settings.ofAssignmentBy_cases faithful
    (Layers.merged ⟨document,environment,overrides⟩)
  simp only [merged] at answered
  unfold loadBy
  rw [read]
  simp only [bind,Except.bind,Bool.not_true,Bool.false_eq_true,if_false]
  rcases answered with ⟨fine,settings,made,texts⟩ | ⟨bad,failed⟩
  · rw [made]
    exact .inl ⟨fine,settings,rfl,texts⟩
  · rw [failed]
    exact .inr ⟨bad,rfl⟩

theorem complaintOn_loadBy (faithful : coerce.Faithful) (environment : Text → Option Text)
    (sound : disk.Sound) (spoken : Says parse disk entries)
    (distinct : (overrides.map Prod.fst).Nodup) (field : Field) :
    complaintOn field (loadBy parse coerce disk environment overrides) =
      field.wrong? coerce (effective? entries environment overrides field) := by
  rcases loadBy_effective faithful environment sound spoken distinct with
    ⟨fine,settings,made,_⟩ | ⟨_,failed⟩
  · rw [made,fine field]
    rfl
  · have every : field ∈ Field.all := by cases field <;> decide
    rw [failed]
    exact (lookup_complaints _ Field.all field).trans (if_pos every)

theorem loadBy_congr {otherParse : Reader} {otherDisk : Disk}
    {otherEnvironment : Text → Option Text} {otherOverrides : Assignment}
    {otherEntries : List (Text × Yaml.Value)} (faithful : coerce.Faithful) (sound : disk.Sound)
    (spoken : Says parse disk entries) (distinct : (overrides.map Prod.fst).Nodup)
    (otherSound : otherDisk.Sound) (otherSpoken : Says otherParse otherDisk otherEntries)
    (otherDistinct : (otherOverrides.map Prod.fst).Nodup)
    (same : ∀ field, effective? otherEntries otherEnvironment otherOverrides field =
      effective? entries environment overrides field) :
    loadBy otherParse coerce otherDisk otherEnvironment otherOverrides =
      loadBy parse coerce disk environment overrides := by
  have here := loadBy_effective faithful environment sound spoken distinct
  have there := loadBy_effective faithful otherEnvironment otherSound otherSpoken otherDistinct
  rw [funext same] at there
  rcases there with ⟨fine,settings,made,texts⟩ | ⟨⟨field,bad⟩,failed⟩
  · rcases here with ⟨_,first,madeFirst,textsFirst⟩ | ⟨⟨field,bad⟩,_⟩
    · have equal : settings = first :=
        Settings.text_injective fun field => (texts field).trans (textsFirst field).symm
      rw [made,madeFirst,equal]
    · exact absurd (fine field) bad
  · rcases here with ⟨fine,_⟩ | ⟨_,failedFirst⟩
    · exact absurd (fine field) bad
    · exact failed.trans failedFirst.symm

-- Every field has the value of the highest source that sets it, and its own sources
-- alone decide about it. There are settings where nothing is wrong with any value, and
-- bytes are as good as the text that they spell; else every wrong value is complained
-- of, in the order of the fields. Values that a higher source covers and keys that are
-- no field make no difference.
theorem fields_settled (parse : Reader) (coerce : Coercion) (disk : Disk)
    (environment : Text → Option Text) (overrides : Assignment)
    (entries : List (Text × Yaml.Value)) (sound : disk.Sound) (spoken : Says parse disk entries)
    (distinct : (overrides.map Prod.fst).Nodup) (faithful : coerce.Faithful) :
    let value := effective? entries environment overrides
    let loaded := loadBy parse coerce disk environment overrides
    load = loadBy Yaml.Document.read Given.asText ∧
    ((∀ field : Field, field.wrong? coerce (value field) = none) →
      ∃ settings, loaded = .ok settings ∧
        ∀ field, settings.text field = field.settled coerce (value field)) ∧
    ((∃ field : Field, field.wrong? coerce (value field) ≠ none) →
      loaded = .error (.complaints (complaints coerce value))) ∧
    (∀ field, complaintOn field loaded = field.wrong? coerce (value field)) ∧
    (∀ field refused name, given refused = .other name → value field = some (.other name) →
      complaintOn field loaded = some .notText) ∧
    (∀ otherParse otherDisk otherEnvironment otherOverrides otherEntries,
      otherDisk.Sound → Says otherParse otherDisk otherEntries →
        (otherOverrides.map Prod.fst).Nodup →
          (∀ field, effective? otherEntries otherEnvironment otherOverrides field = value field) →
            loadBy otherParse coerce otherDisk otherEnvironment otherOverrides = loaded) := by
  intro value loaded
  have answered := loadBy_effective faithful environment sound spoken distinct
  have each := complaintOn_loadBy faithful environment sound spoken distinct
  refine ⟨load_eq,?_,?_,each,?_,?_⟩
  · intro fine
    rcases answered with ⟨_,settings,made,texts⟩ | ⟨⟨field,bad⟩,_⟩
    · exact ⟨settings,made,texts⟩
    · exact absurd (fine field) bad
  · intro bad
    obtain ⟨field,wrong⟩ := bad
    rcases answered with ⟨fine,_⟩ | ⟨_,failed⟩
    · exact absurd (fine field) wrong
    · exact failed
  · intro field refused name gives stands
    rw [each,show effective? entries environment overrides field = _ from stands,Field.wrong?,
      Given.takenBy,faithful.refused refused name gives]
  · intro otherParse otherDisk otherEnvironment otherOverrides otherEntries otherSound otherSpoken
      otherDistinct same
    exact loadBy_congr faithful sound spoken distinct otherSound otherSpoken otherDistinct same

def layeredDocument : Text := "locale: loud\nlog_level: ~\nunknown: 1\n".toList

def layeredDisk : Disk := (Command.configured layeredDocument).disk

def layeredEnvironment (name : Text) : Option Text :=
  if name = "YARIMD_LOCALE".toList then some "fr".toList else none

def layeredOverrides : Assignment :=
  [("content_root".toList,.text "docs".toList),("app_name".toList,.absent)]

def layeredEntries : List (Text × Yaml.Value) :=
  [("locale".toList,.scalar (.text "loud".toList)),("log_level".toList,.scalar .null),
    ("unknown".toList,.scalar (.integer 1))]

theorem layered_fields_settled : layeredDisk.Sound ∧
    Says Yaml.Document.read layeredDisk layeredEntries ∧
      (layeredOverrides.map Prod.fst).Nodup ∧ Coercion.Faithful Given.asText ∧
        load layeredDisk layeredEnvironment layeredOverrides =
          .error (.complaints [(.logLevel,.notText)]) := by
  have sound : layeredDisk.Sound := by decide +kernel
  have stands : layeredDisk.entry? (layeredDisk.here ++ [ConfigurationFault.fileName]) =
      some (.file (Utf8.encode layeredDocument) 0o644) := by decide +kernel
  have decoded : Utf8.decode (Utf8.encode layeredDocument) = .ok layeredDocument := by
    decide +kernel
  have read : Yaml.Document.read layeredDocument = .ok (.mapping (layeredEntries.map fun entry =>
      (.scalar (.text entry.1),entry.2))) := by decide +kernel
  have spoken : Says Yaml.Document.read layeredDisk layeredEntries := .mapping stands decoded read
  have distinct : (layeredOverrides.map Prod.fst).Nodup := by decide
  have faithful := Given.asText_faithful
  obtain ⟨same,_,complains,_⟩ := fields_settled Yaml.Document.read Given.asText layeredDisk
    layeredEnvironment layeredOverrides layeredEntries sound spoken distinct faithful
  have wrong : complaints Given.asText
      (effective? layeredEntries layeredEnvironment layeredOverrides) =
        [(.logLevel,.notText)] := by decide +kernel
  refine ⟨sound,spoken,distinct,faithful,?_⟩
  rw [same,← wrong]
  exact complains ⟨.logLevel,by decide +kernel⟩

-- A folder given as bytes and nothing else. The value is no text, and it is taken.
def media : Text := "media".toList

def binaryDisk : Disk := (Command.configured "assets_dir: !!binary bWVkaWE=\n".toList).disk

def binaryEntries : List (Text × Yaml.Value) :=
  [("assets_dir".toList,.scalar (.bytes (Utf8.encode media)))]

theorem bytes_taken_for_text : binaryDisk.Sound ∧
    Says Yaml.Document.read binaryDisk binaryEntries ∧
      (effective? binaryEntries (fun _ => none) [] .assetsDir = some (.bytes (Utf8.encode media)) ∧
        ∀ text, effective? binaryEntries (fun _ => none) [] .assetsDir ≠ some (.text text)) ∧
        load binaryDisk (fun _ => none) [] = .ok { assetsDir := media } := by
  have stands : binaryDisk.entry? (binaryDisk.here ++ [ConfigurationFault.fileName]) =
      some (.file (Utf8.encode "assets_dir: !!binary bWVkaWE=\n".toList) 0o644) := by
    decide +kernel
  have decoded : Utf8.decode (Utf8.encode "assets_dir: !!binary bWVkaWE=\n".toList) =
      .ok "assets_dir: !!binary bWVkaWE=\n".toList := by decide +kernel
  have read : Yaml.Document.read "assets_dir: !!binary bWVkaWE=\n".toList =
      .ok (.mapping (binaryEntries.map fun entry => (.scalar (.text entry.1),entry.2))) := by
    decide +kernel
  have value : effective? binaryEntries (fun _ => none) [] .assetsDir =
      some (.bytes (Utf8.encode media)) := by decide +kernel
  refine ⟨by decide +kernel,.mapping stands decoded read,⟨value,?_⟩,by decide +kernel⟩
  intro text same
  cases value.symm.trans same

end Plainmark.Configuration
