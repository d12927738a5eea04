import Plainmark.Proofs.Convergence
import Plainmark.Proofs.Segments

namespace Plainmark.Image
open Text Substitution

theorem unbracketed_before {render : Image → Logged} {block rest : Text} (unbracketed : '[' ∉ block)
    (begins : rest.head? ≠ some '[') :
    replaceAll pattern render (block ++ rest) = block ++ replaceAll pattern render rest := by
  induction block with
  | nil => rfl
  | cons c block ih =>
    obtain ⟨_,inner⟩ := not_or.mp (mt List.mem_cons.mpr unbracketed)
    have next : (block ++ rest).head? ≠ some '[' := by
      cases block with
      | nil => exact begins
      | cons d block =>
        intro same
        cases same
        exact inner List.mem_cons_self
    have unread : pattern.read? (c :: (block ++ rest)) = none := by
      by_cases mark : c = '!'
      · subst mark
        cases shape : block ++ rest with
        | nil => rfl
        | cons d behind =>
          apply read?_doubles
          rintro rfl
          exact next (by rw [shape]; rfl)
      · exact read?_begins c _ mark
    rw [List.cons_append,replaceAll_kept unread,ih inner,List.cons_append]

def reach (target : Text) : Text := target.takeWhile (· != ')')

theorem reach_split (target : Text) :
    ∃ behind, target ++ [')'] = reach target ++ ')' :: behind ∧ ')' ∉ reach target := by
  induction target with
  | nil => exact ⟨[],rfl,List.not_mem_nil⟩
  | cons c target ih =>
    by_cases stop : c = ')'
    · subst stop
      exact ⟨target ++ [')'],rfl,List.not_mem_nil⟩
    · obtain ⟨behind,split,closed⟩ := ih
      have goes : reach (c :: target) = c :: reach target :=
        List.takeWhile_cons_of_pos (by simpa using stop)
      refine ⟨behind,?_,?_⟩
      · rw [goes,List.cons_append,split,List.cons_append]
      · rw [goes]
        exact List.not_mem_cons_of_ne_of_not_mem (Ne.symm stop) closed

-- Behind an exclamation mark a link is an image, and is moved like one.
theorem marked_link (folder : Text) {label target : Text} (labelled : '[' ∉ label)
    (described : ']' ∉ label) (opened : '[' ∉ target) (filled : reach target ≠ []) :
    Rewrites pattern (fun image => ⟨moved folder image,[]⟩) ('!' :: Link.source ⟨label,target⟩)
      ('!' :: Link.source ⟨label,
        (if settled folder (reach target) then [] else folder ++ ['/']) ++ target⟩) := by
  obtain ⟨behind,split,closed⟩ := reach_split target
  have unbracketed : '[' ∉ reach target ++ ')' :: behind := by
    rw [← split]
    exact List.not_mem_append opened (by decide)
  obtain ⟨begun,rest⟩ := not_or.mp (mt List.mem_append.mpr unbracketed)
  have after : '[' ∉ behind := fun member => rest (List.mem_cons_of_mem _ member)
  have ends : behind.getLast? ≠ some '!' := by
    intro mark
    have last := congrArg List.getLast? split
    rw [List.getLast?_concat,List.getLast?_append,List.getLast?_cons,mark] at last
    cases last
  have spelled : ∀ start : Text, '!' :: Link.source ⟨label,start ++ target⟩ =
      source ⟨label,start ++ reach target⟩ ++ behind := by
    intro start
    simp [Link.source,source,split]
  have plain : '!' :: Link.source ⟨label,target⟩ = source ⟨label,reach target⟩ ++ behind := spelled []
  have image : Rewrites pattern (fun image => ⟨moved folder image,[]⟩)
      (source ⟨label,reach target⟩) (moved folder ⟨label,reach target⟩) :=
    source_rewrites folder labelled described begun filled closed
  have whole := image.append (unbracketed_stands after ends)
  rw [plain]
  cases settles : settled folder (reach target) with
  | true =>
    rw [moved,if_pos settles] at whole
    exact plain ▸ whole
  | false =>
    rw [moved,if_neg (by simp [settles])] at whole
    exact spelled (folder ++ ['/']) ▸ whole

theorem prose_link (folder : Text) {prose label target : Text} (plain : '[' ∉ prose)
    (labelled : '[' ∉ label) (described : ']' ∉ label) (opened : '[' ∉ target)
    (filled : reach target ≠ []) :
    replaceAll pattern (fun image => ⟨moved folder image,[]⟩) (prose ++ Link.source ⟨label,target⟩) =
      prose ++ Link.source ⟨label,
        (if prose.getLast? = some '!' ∧ settled folder (reach target) = false then folder ++ ['/']
          else []) ++ target⟩ := by
  by_cases mark : prose.getLast? = some '!'
  · obtain ⟨front,rfl⟩ := List.getLast?_eq_some_iff.mp mark
    have marked := (marked_link folder labelled described opened filled).whole
    have free : '[' ∉ front := fun member => plain (List.mem_append_left _ member)
    rw [List.append_assoc,List.singleton_append,unbracketed_before free (by simp),marked]
    cases settles : settled folder (reach target) <;> simp
  · rw [if_neg (fun both => mark both.1)]
    exact ((unbracketed_stands plain mark).append (link_stands labelled opened)).whole

end Plainmark.Image

namespace Plainmark.Stage
open Text Substitution

theorem unbraced_stands (context : Context) {text : Text} (unbraced : '\x7b' ∉ text)
    {stage : Stage} (other : stage ∉ [.wrappedGlossary,.docsLink,.image]) :
    (stage.apply context text).text = text := by
  have family : ∀ family : Family, (family.stage.apply context text).text = text := by
    intro family
    rw [family.apply_text]
    exact (Rewrites.without (Macro.read?_begins family.bare) unbraced).whole
  cases stage with
  | wrappedGlossary => exact absurd (by decide) other
  | docsLink => exact absurd (by decide) other
  | image => exact absurd (by decide) other
  | scaffold => exact (Rewrites.without Scaffold.read?_begins unbraced).whole
  | glossary => exact family .glossary
  | element => exact family .element
  | css => exact family .css
  | httpStatus => exact family .httpStatus
  | interface => exact family .interface

theorem prose_link_stands (path : Path) (shelf : Shelf) {prose label target : Text}
    (plain : '[' ∉ prose) (labelled : '[' ∉ label) (described : ']' ∉ label)
    (opened : '[' ∉ target) (elsewhere : target.head? ≠ some '/') :
    (Stage.docsLink.apply (.standard path shelf) (prose ++ Link.source ⟨label,target⟩)).text =
      prose ++ Link.source ⟨label,target⟩ := by
  have link : Rewrites (Link.pattern ({} : Settings).docsPrefix) (withDomain {})
      (Link.source ⟨label,target⟩) (Link.source ⟨label,target⟩) :=
    Link.elsewhere_stands (by rw [Link.docsPrefix_standard]; rfl) labelled described opened elsewhere
  have front : Rewrites (Link.pattern ({} : Settings).docsPrefix) (withDomain {}) prose prose :=
    .without (Link.read?_begins _) plain
  exact (front.append link).whole

end Plainmark.Stage

namespace Plainmark.Glossary
open Text Substitution Conversion

def mentioned (term : Text) : Macro := ⟨"Glossary".toList,term,none,none⟩

def mention (term : Text) : Text :=
  ['\x7b','\x7b'] ++ "Glossary".toList ++ ['(','"'] ++ term ++ ['"',')','\x7d','\x7d']

theorem mention_eq (term : Text) : mention term = Macro.source (mentioned term) := by
  unfold mention mentioned
  generalize "Glossary".toList = name
  simp [Macro.source,Macro.bodySource,Macro.labelSource,Macro.quote]

variable {prose term : Text}

theorem mentioned_fits (named : term ≠ []) (free : Free "\"\x7b[]<".toList term) :
    Macro.Fits bareForm (mentioned term) := by
  have name : bareForm.name.Accepts "Glossary".toList :=
    Spelling.read?_accepts (rfl : bareForm.name.read? "Glossary".toList = some (_,[]))
  exact ⟨⟨name,named,free.absent (by decide),nofun,nofun,nofun⟩,rfl⟩

theorem mentioned_modest (free : Free "\"\x7b[]<".toList term) : (mentioned term).Modest :=
  ⟨free,nofun⟩

theorem settled_address (path : Path) (shelf : Shelf) (term : Text) :
    Image.reach (Family.glossaryAddress path shelf term) ≠ [] ∧
      (Image.settled "assets".toList (Image.reach (Family.glossaryAddress path shelf term)) = false ↔
        shelf Resource.glossary term = true) := by
  unfold Family.glossaryAddress Resource.glossary
  cases shelf "glossary".toList term with
  | true =>
    rw [if_pos rfl]
    cases path.depth with
    | zero => exact ⟨nofun,iff_of_true rfl rfl⟩
    | succ depth => exact ⟨nofun,iff_of_true rfl rfl⟩
  | false =>
    rw [if_neg (by decide)]
    have web : Image.settled "assets".toList
        (Image.reach (Family.docs ++ "Glossary/".toList ++ Slug.ofTerm term)) = true := rfl
    exact ⟨nofun,iff_of_false (by rw [web]; decide) (by decide)⟩

theorem glossary_links (path : Path) (shelf : Shelf) (plain : Free starters prose)
    (named : term ≠ []) (free : Free "\"\x7b[]<".toList term) :
    (Stage.glossary.apply (.standard path shelf)
      (Stage.wrappedGlossary.apply (.standard path shelf) (prose ++ mention term)).text).text =
        prose ++ Link.source ⟨term,Family.glossaryAddress path shelf term⟩ := by
  have fits := mentioned_fits named free
  have ordinary : (Segment.mention .glossary (mentioned term)).Ordinary :=
    ⟨fits,mentioned_modest free⟩
  have untagged : '<' ∉ mention term := by
    rw [mention_eq]
    exact Segment.mention_absent ordinary (by decide)
  have wrapped : (Stage.wrappedGlossary.apply (.standard path shelf) (prose ++ mention term)).text =
      prose ++ mention term :=
    (Rewrites.without (Macro.read?_begins_wrapped (rfl : wrappedForm.wrapped = true))
      (List.not_mem_append (plain.absent (by decide)) untagged)).whole
  have rendered : (Family.glossary.render (.standard path shelf) (mentioned term)).text =
      Link.source ⟨term,Family.glossaryAddress path shelf term⟩ :=
    Family.render_standard .glossary path shelf (mentioned term)
  have before : Rewrites bareForm.pattern (Family.glossary.render (.standard path shelf)) prose
      prose := .without (Macro.read?_begins Family.glossary.bare) (plain.absent (by decide))
  have link : Rewrites bareForm.pattern (Family.glossary.render (.standard path shelf))
      (Macro.source (mentioned term)) _ :=
    .occurrence fun rest => Macro.read?_eq_some_iff.mpr ⟨rfl,fits⟩
  rw [wrapped,mention_eq,← rendered]
  exact (before.append link).whole

theorem once_mention (path : Path) (shelf : Shelf) (plain : Free starters prose)
    (named : term ≠ []) (free : Free "\"\x7b[]<".toList term) :
    once path shelf (prose ++ mention term) = prose ++ Link.source ⟨term,
      (if prose.getLast? = some '!' ∧ shelf Resource.glossary term = true then "assets/".toList
        else []) ++ Family.glossaryAddress path shelf term⟩ := by
  have labelled : ∀ {mark}, mark ∈ "\x7b[]".toList → mark ∉ term :=
    fun marked => Family.label_absent .glossary (mentioned_modest free) marked
  have addressed : ∀ {mark}, mark ∈ "\x7b[]".toList →
      mark ∉ Family.glossaryAddress path shelf term :=
    fun marked => Family.address_absent .glossary free marked
  have linked := glossary_links path shelf plain named free
  have docs := Stage.prose_link_stands path shelf (plain.absent (by decide)) (labelled (by decide))
    (labelled (by decide)) (addressed (by decide)) (Family.address_head .glossary path shelf term)
  obtain ⟨filled,settles⟩ := settled_address path shelf term
  have image : (Stage.image.apply (.standard path shelf)
      (prose ++ Link.source ⟨term,Family.glossaryAddress path shelf term⟩)).text = _ :=
    Image.prose_link "assets".toList (plain.absent (by decide)) (labelled (by decide))
      (labelled (by decide)) (addressed (by decide)) filled
  have folder : "assets".toList ++ ['/'] = "assets/".toList := rfl
  simp only [settles,folder] at image
  have unbraced : ∀ target : Text, '\x7b' ∉ target → '\x7b' ∉ prose ++ Link.source ⟨term,target⟩ := by
    intro target absent
    apply List.not_mem_append (plain.absent (by decide))
    exact Link.source_absent (labelled (by decide)) absent (by decide)
  have scaffold : (Stage.scaffold.apply (.standard path shelf)
      (prose ++ Link.source ⟨term,Family.glossaryAddress path shelf term⟩)).text = _ :=
    Stage.unbraced_stands _ (unbraced _ (addressed (by decide))) (by decide)
  rw [once,convert,through_text,Stage.all,List.foldl_cons,List.foldl_cons,linked,List.foldl_cons,
    scaffold,List.foldl_cons,docs,List.foldl_cons,image,← through_text]
  apply through_idle
  intro stage later
  have others : ∀ stage ∈ [Stage.element,.css,.httpStatus,.interface],
      stage ∉ [.wrappedGlossary,.docsLink,.image] := by decide
  apply Stage.unbraced_stands _ (unbraced _ ?_) (others stage later)
  apply List.not_mem_append _ (addressed (by decide))
  split <;> decide

-- The link of a mention keeps the target that was resolved for its term, except
-- that behind an exclamation mark the link to a document at hand is read as an
-- image and leads into the folder of images.
theorem mention_keeps_target_iff (path : Path) (shelf : Shelf) (prose term : Text)
    (plain : Free "\x7b[<".toList prose) (named : term ≠ [])
    (free : Free "\"\x7b[]<".toList term) :
    let resolved := (target (.standard path shelf) term).text
    let made := once path shelf (prose ++ mention term)
    (made = prose ++ Link.source ⟨term,resolved⟩ ↔
      ¬ (prose.getLast? = some '!' ∧ shelf Resource.glossary term = true)) ∧
    (prose.getLast? = some '!' → shelf Resource.glossary term = true →
      made = prose ++ Link.source ⟨term,"assets/".toList ++ resolved⟩) := by
  intro resolved made
  have whole := once_mention path shelf plain named free
  rw [← Family.target_standard] at whole
  change made = prose ++ Link.source ⟨term,_ ++ resolved⟩ at whole
  by_cases moved : prose.getLast? = some '!' ∧ shelf Resource.glossary term = true
  · rw [if_pos moved] at whole
    refine ⟨iff_of_false ?_ (not_not.mpr moved),fun _ _ => whole⟩
    rw [whole]
    intro same
    have lengths := congrArg List.length same
    have added : "assets/".toList.length = 7 := rfl
    simp only [Link.source,List.length_append,List.length_cons,added] at lengths
    omega
  · rw [if_neg moved] at whole
    exact ⟨iff_of_true whole moved,fun mark present => absurd ⟨mark,present⟩ moved⟩

def entry : Text := "HTML".toList

def library : Shelf := (Catalogue.ofNames Resource.glossary [entry]).shelf

def page : Path := Path.ofText "index.md".toList

theorem mention_after_words :
    Free "\x7b[<".toList "See!? ".toList ∧ entry ≠ [] ∧ Free "\"\x7b[]<".toList entry ∧
      (once page library ("See!? ".toList ++ mention entry) =
        "See!? ".toList ++ Link.source ⟨entry,(target (.standard page library) entry).text⟩ ↔
          ¬ ("See!? ".toList.getLast? = some '!' ∧ library Resource.glossary entry = true)) := by
  have plain : Free "\x7b[<".toList "See!? ".toList := by decide
  have free : Free "\"\x7b[]<".toList entry := by decide
  exact ⟨plain,by decide,free,
    (mention_keeps_target_iff page library "See!? ".toList entry plain (by decide) free).1⟩

theorem exclaimed_mention_moved : Free "\x7b[<".toList ['!'] ∧ entry ≠ [] ∧
    Free "\"\x7b[]<".toList entry ∧
      (target (.standard page library) entry).text = "resources/glossary/HTML.md".toList ∧
        once page library (['!'] ++ mention entry) =
          "![HTML](assets/resources/glossary/HTML.md)".toList ∧
            once page library (['!'] ++ mention entry) ≠
              ['!'] ++ Link.source ⟨entry,(target (.standard page library) entry).text⟩ := by
  decide +kernel

end Plainmark.Glossary
