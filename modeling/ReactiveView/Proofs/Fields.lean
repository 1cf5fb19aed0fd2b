import ReactiveView.Proofs.Documents
import ReactiveView.Proofs.Mirroring

namespace ReactiveView

theorem List.find?_eq_some_iff_of_unique {α : Type} {p : α → Bool} {xs : List α}
    (h : ∀ x ∈ xs, ∀ y ∈ xs, p x = true → p y = true → x = y) {x : α} (hx : x ∈ xs) :
    xs.find? p = some x ↔ p x = true := by
  constructor
  · exact List.find?_some
  · intro hp
    obtain ⟨y, hy⟩ := Option.isSome_iff_exists.1 (List.find?_isSome.2 ⟨x, hx, hp⟩)
    rw [hy, h y (List.mem_of_find?_eq_some hy) x hx (List.find?_some hy) hp]

theorem List.exists_cut_of_pairwise {α : Type} {p q : α → Bool} {xs : List α}
    (h : xs.Pairwise fun x y => p x = true → q y = false) (hpq : ∀ x, p x = true → q x = false) :
    ∃ front back, xs = front ++ back ∧ (∀ x ∈ front, p x = false) ∧ ∀ x ∈ back, q x = false := by
  induction xs with
  | nil => exact ⟨[], [], rfl, List.forall_mem_nil _, List.forall_mem_nil _⟩
  | cons x rest ih =>
    obtain ⟨hx, hrest⟩ := List.pairwise_cons.1 h
    by_cases hp : p x = true
    · exact ⟨[], x :: rest, rfl, List.forall_mem_nil _, List.forall_mem_cons.2 ⟨hpq x hp, fun y hy => hx y hy hp⟩⟩
    · obtain ⟨front, back, rfl, hfront, hback⟩ := ih hrest
      exact ⟨x :: front, back, rfl, List.forall_mem_cons.2 ⟨Bool.not_eq_true _ ▸ hp, hfront⟩, hback⟩

namespace Facet

def target? : Facet → Option String
  | .value => some "value"
  | .prop name => some name
  | _ => none

def enters (facet : Facet) : Bool := facet.target? == some "value"

variable {dom : Dom} (reading : dom.Reading) (tag : String)

/-- The facet writes to an attribute of an element. -/
def sets (name : String) : Facet → Bool
  | .visible => reading.reflects && reading.key name == reading.key "hidden"
  | facet => facet.target?.any fun own =>
    !(own == "value" && Dom.isFieldTag tag) && reading.key own == reading.key name

/-- The facet may change what an element makes of its field, though it does not go there. -/
def governs : Facet → Bool
  | .text => tag == "textarea"
  | facet => facet.target?.any fun own => own != "value" && tag == "input" && reading.governs own

end Facet

namespace ArenaNode

def tag (n : ArenaNode) : String := Dom.tagOf n.node.kind

def Single (n : ArenaNode) (sort : Facet → Bool) : Prop :=
  ∀ facet ∈ n.facets, ∀ other ∈ n.facets, sort facet = true → sort other = true → facet = other

end ArenaNode

theorem Node.writeAll_append (node : Node) (front back : List (Facet × FacetValue)) :
    node.writeAll (front ++ back) = (node.writeAll front).writeAll back := List.foldl_append

theorem Node.read_writeAll_cases {values : List (Facet × FacetValue)} (ht : ∀ entry ∈ values, entry.1.Takes entry.2)
    (node : Node) (facet : Facet) : (facet, (node.writeAll values).read facet) ∈ values ∨
      (node.writeAll values).read facet = node.read facet := by
  induction values generalizing node with
  | nil => exact .inr rfl
  | cons entry rest ih =>
    obtain ⟨htake, htakes⟩ := List.forall_mem_cons.1 ht
    rcases ih htakes (node.write entry.1 entry.2) with hrest | hsame
    · exact .inl (List.mem_cons_of_mem _ hrest)
    · by_cases hentry : entry.1 = facet
      · subst hentry
        left
        have hread := hsame.trans (Node.read_write_self htake)
        rw [writeAll] at hread ⊢
        rw [List.foldl_cons, hread]
        exact List.mem_cons_self
      · exact .inr (hsame.trans (Node.read_write_of_ne _ hentry))

/-- A change that leaves a field of text one: it sets the type, if anything that governs the field, and sets it to
that of a field of text. -/
def Change.KeepsText {dom : Dom} (reading : dom.Reading) : Change → Prop
  | .prop own output => own = "value" ∨ (reading.governs own = true → reading.key own = reading.key "type") ∧
      (reading.key own = reading.key "type" → ∀ type ∈ Dom.attributeText output, reading.textual type = true)
  | _ => True

def Change.governs {dom : Dom} (reading : dom.Reading) (tag : String) : Change → Bool
  | .text _ => tag == "textarea"
  | .prop own _ => own != "value" && tag == "input" && reading.governs own
  | .visible _ => false

namespace Dom

variable {dom : Dom}

def repaintAll (dom : Dom) (face : dom.Face) (values : List (Facet × FacetValue)) : dom.Face :=
  (values.map changeOf).foldl dom.repaint face

theorem face_changeAll (part : Part dom.Face) (values : List (Facet × FacetValue)) :
    (dom.changeAll part values).face = dom.repaintAll part.face values := by
  rw [changeAll, repaintAll]
  generalize values.map changeOf = changes
  induction changes generalizing part with
  | nil => rfl
  | cons change rest ih => exact ih (dom.change part change)

theorem repaintAll_append (face : dom.Face) (front back : List (Facet × FacetValue)) :
    dom.repaintAll face (front ++ back) = dom.repaintAll (dom.repaintAll face front) back := by
  rw [repaintAll, List.map_append, List.foldl_append]
  rfl

section Telling

variable {α : Type} {observe : dom.Face → α} {steady : dom.Face → Prop} {source? : Option Facet}
  {tell : FacetValue → α} {start : α}

/-- What is observed of a face is what one facet of a node says, or what it was at first if there is no such facet. -/
def Tells (observe : dom.Face → α) (source? : Option Facet) (tell : FacetValue → α) (start : α) (face : dom.Face)
    (node : Node) : Prop :=
  observe face = (source?.map fun facet => tell (node.read facet)).getD start

/-- Only the source of what is observed changes it, and says by its value what it becomes. -/
def Follows (observe : dom.Face → α) (steady : dom.Face → Prop) (source? : Option Facet) (tell : FacetValue → α)
    (entry : Facet × FacetValue) : Prop :=
  ∀ face, steady face → steady (dom.repaint face (changeOf entry)) ∧
    observe (dom.repaint face (changeOf entry)) = if source? = some entry.1 then tell entry.2 else observe face

theorem tells_repaintAll {values : List (Facet × FacetValue)} (ht : ∀ entry ∈ values, entry.1.Takes entry.2)
    (hstep : ∀ entry ∈ values, Follows observe steady source? tell entry) {face : dom.Face} {node : Node}
    (hsteady : steady face)
    (h : Tells observe source? tell start face node ∨ ∃ facet ∈ values.map Prod.fst, source? = some facet) :
    steady (dom.repaintAll face values) ∧
      Tells observe source? tell start (dom.repaintAll face values) (node.writeAll values) := by
  induction values generalizing face node with
  | nil =>
    refine ⟨hsteady, h.resolve_right ?_⟩
    rintro ⟨facet, hfacet, -⟩
    cases hfacet
  | cons entry rest ih =>
    obtain ⟨hentry, hothers⟩ := List.forall_mem_cons.1 hstep
    obtain ⟨htake, htakes⟩ := List.forall_mem_cons.1 ht
    obtain ⟨hnext, hobserved⟩ := hentry face hsteady
    have hlater : Tells observe source? tell start (dom.repaint face (changeOf entry)) (node.write entry.1 entry.2) ∨
        ∃ facet ∈ rest.map Prod.fst, source? = some facet := ?_
    exact ih htakes hothers hnext hlater
    by_cases hsource : source? = some entry.1
    · left
      rw [if_pos hsource] at hobserved
      rw [Tells, hsource, Option.map_some, Option.getD_some, Node.read_write_self htake, hobserved]
    · rw [if_neg hsource] at hobserved
      refine h.imp (fun htells => ?_) ?_
      · rw [Tells, hobserved, htells]
        cases source? with
        | none => rfl
        | some facet =>
          rw [Option.map_some, Option.map_some, Node.read_write_of_ne _ fun he => hsource (by rw [he])]
      · rintro ⟨facet, hfacet, hsome⟩
        rw [List.map_cons, List.mem_cons] at hfacet
        exact ⟨facet, hfacet.resolve_left fun he => hsource (he ▸ hsome), hsome⟩

end Telling

theorem changeOf_eq_prop {entry : Facet × FacetValue} (ht : entry.1.Takes entry.2) {own : String}
    (htarget : entry.1.target? = some own) :
    ∃ output, entry.2 = .output output ∧ changeOf entry = .prop own output := by
  obtain ⟨facet, value⟩ := entry
  rcases ht.cases with ⟨rfl, s, rfl⟩ | ⟨rfl, b, rfl⟩ | ⟨rfl, v, rfl⟩ | ⟨name, o, rfl, rfl⟩
  · cases htarget
  · cases htarget
  · obtain rfl := Option.some.inj htarget
    exact ⟨.value v, rfl, rfl⟩
  · obtain rfl := Option.some.inj htarget
    exact ⟨o, rfl, rfl⟩

theorem governs_changeOf {reading : dom.Reading} {tag : String} {entry : Facet × FacetValue}
    (ht : entry.1.Takes entry.2) : (changeOf entry).governs reading tag = entry.1.governs reading tag := by
  obtain ⟨facet, value⟩ := entry
  rcases ht.cases with ⟨rfl, s, rfl⟩ | ⟨rfl, b, rfl⟩ | ⟨rfl, v, rfl⟩ | ⟨name, o, rfl, rfl⟩ <;> rfl

def fieldOf (dom : Dom) (face : dom.Face) : Bool × String := (dom.checked (dom.form face), dom.value (dom.form face))

theorem fieldOf_congr {face other : dom.Face} (h : dom.form face = dom.form other) :
    dom.fieldOf face = dom.fieldOf other := by rw [fieldOf, fieldOf, h]

def attributeOf : FacetValue → Option String
  | .text _ => none
  | .visible b => if b then none else some ""
  | .output o => attributeText o

def hiddenOf : FacetValue → Bool
  | .visible b => !b
  | _ => false

def outputOf : FacetValue → Output
  | .output o => o
  | _ => .value .null

theorem setProp_value {face : dom.Face} (h : dom.isField face = true) (output : Output) :
    dom.setProp "value" output face =
      if dom.isCheckbox (dom.form face) then dom.write (.checked (outputTruthy output)) face
      else dom.setField ((attributeText output).getD "") face := if_pos ⟨rfl, h⟩

namespace Lawful

variable {reading : dom.Reading} (hdom : dom.Lawful reading) {tag : String}

include hdom

theorem tag_setProp (name : String) (output : Output) (face : dom.Face) :
    dom.tag (dom.setProp name output face) = dom.tag face := by
  rw [setProp, setField]
  split_ifs <;> first | rfl | exact hdom.tag_write _ _

theorem tag_repaint (face : dom.Face) (change : Change) : dom.tag (dom.repaint face change) = dom.tag face := by
  cases change with
  | text s => exact hdom.tag_write _ _
  | visible b => exact hdom.tag_write _ _
  | prop name output => exact hdom.tag_setProp name output face

theorem tag_repaintAll (face : dom.Face) (values : List (Facet × FacetValue)) :
    dom.tag (dom.repaintAll face values) = dom.tag face := by
  induction values generalizing face with
  | nil => rfl
  | cons entry rest ih => exact (ih (dom.repaint face (changeOf entry))).trans (hdom.tag_repaint face _)

theorem hidden_setProp {name : String} {face : dom.Face}
    (h : reading.reflects = true → ¬(name = "value" ∧ dom.isField face = true) →
      reading.key name ≠ reading.key "hidden")
    (output : Output) : dom.hidden (dom.setProp name output face) = dom.hidden face := by
  rw [setProp]
  split_ifs with hfield hbox
  · exact hdom.hidden_checked _ _
  · rw [setField]
    split_ifs
    · rfl
    · exact hdom.hidden_value _ _
  · exact hdom.hidden_attribute _ _ _ fun hreflects => h hreflects hfield

theorem attribute?_setProp {own name : String} {output : Output} {face : dom.Face} (htag : dom.tag face = tag)
    (h : tag = "input" → reading.key name = reading.key "value" → reading.isTextual (dom.form face) = true ∧
      (own ≠ "value" → reading.key own = reading.key "type" →
        ∀ type ∈ attributeText output, reading.textual type = true)) :
    dom.attribute? (dom.setProp own output face) name =
      if (!(own == "value" && isFieldTag tag) && reading.key own == reading.key name) = true then attributeText output
      else dom.attribute? face name := by
  subst htag
  rw [setProp]
  by_cases hfield : own = "value" ∧ dom.isField face = true
  · have hnot : ¬(!(own == "value" && isFieldTag (dom.tag face)) && reading.key own == reading.key name) = true := by
      have htag : isFieldTag (dom.tag face) = true := hfield.2
      simp [hfield.1, htag]
    rw [if_pos hfield, if_neg hnot]
    split_ifs
    · exact hdom.attribute?_checked _ _ _
    · rw [setField]
      split_ifs
      · rfl
      · exact hdom.attribute?_value _ _ _ hfield.2 fun hinput hkey => (h hinput hkey).1
  · have hfield' : ¬(own = "value" ∧ isFieldTag (dom.tag face) = true) := hfield
    have htextual (hinput : dom.tag face = "input") (hkey : reading.key name = reading.key "value") :=
      (h hinput hkey).imp_right fun htype => htype fun hown => hfield' ⟨hown, by rw [hinput]; rfl⟩
    rw [if_neg hfield, hdom.attribute?_attribute _ _ _ _ htextual]
    congr 1
    simp only [Bool.and_eq_true, Bool.not_eq_true', ← Bool.not_eq_true, beq_iff_eq, hfield', not_false_eq_true,
      true_and]

theorem follows_hidden {entry : Facet × FacetValue} (ht : entry.1.Takes entry.2)
    (h : reading.reflects = true → entry.1.sets reading tag "hidden" = true → entry.1 = .visible) :
    Follows dom.hidden (dom.tag · = tag) (some .visible) hiddenOf entry := by
  intro face htag
  refine ⟨(hdom.tag_repaint _ _).trans htag, ?_⟩
  obtain ⟨facet, value⟩ := entry
  have hprop (name : String) (output : Output) (hne : facet ≠ .visible) (htarget : facet.sets reading tag "hidden" =
      (!(name == "value" && isFieldTag tag) && reading.key name == reading.key "hidden")) :
      dom.hidden (dom.setProp name output face) = dom.hidden face := by
    refine hdom.hidden_setProp (fun hreflects hfield hkey => hne (h hreflects ?_)) output
    have hfield' : ¬(name = "value" ∧ isFieldTag tag = true) := htag ▸ hfield
    rw [htarget, hkey, beq_self_eq_true, Bool.and_true, Bool.not_eq_true', ← Bool.not_eq_true, Bool.and_eq_true,
      beq_iff_eq]
    exact hfield'
  rcases ht.cases with ⟨rfl, s, rfl⟩ | ⟨rfl, b, rfl⟩ | ⟨rfl, v, rfl⟩ | ⟨name, o, rfl, rfl⟩
  · exact hdom.hidden_content s face
  · exact hdom.hidden_hidden _ face
  · exact hprop "value" (.value v) (by decide) rfl
  · exact hprop name o (by simp) rfl

/-- Faces whose fields are the same, and become the same with whatever value is set. -/
structure Same (face later : dom.Face) : Prop where
  tag : dom.tag later = dom.tag face
  isCheckbox : dom.isCheckbox (dom.form later) = dom.isCheckbox (dom.form face)
  field : dom.fieldOf later = dom.fieldOf face
  entry : ∀ text,
    dom.value (dom.form (dom.write (.value text) later)) = dom.value (dom.form (dom.write (.value text) face))

theorem same_of_form {face later : dom.Face} (htag : dom.tag later = dom.tag face)
    (h : dom.form later = dom.form face) : Same face later :=
  ⟨htag, by rw [h], fieldOf_congr h, fun text => by rw [hdom.form_congr (.value text) later face h]⟩

theorem form_repaint {face : dom.Face} {change : Change} (htag : dom.tag face = tag)
    (hgoverns : change.governs reading tag = false) (hne : ∀ output, change ≠ .prop "value" output) :
    dom.form (dom.repaint face change) = dom.form face := by
  cases change with
  | text s => exact hdom.form_content s face (by rw [htag]; exact beq_eq_false_iff_ne.1 hgoverns)
  | visible b => exact hdom.form_hidden _ face
  | prop own output =>
    have hown : own ≠ "value" := fun he => hne output (by rw [he])
    rw [repaint, setProp, if_neg fun he => hown he.1]
    refine hdom.form_attribute _ _ _ fun hinput => ?_
    simpa [Change.governs, hown, ← htag, hinput] using hgoverns

theorem same_repaint {face : dom.Face} {change : Change} (htag : dom.tag face = "input")
    (htext : reading.isTextual (dom.form face) = true) (hkeeps : change.KeepsText reading)
    (hne : ∀ output, change ≠ .prop "value" output) :
    reading.isTextual (dom.form (dom.repaint face change)) = true ∧ Same face (dom.repaint face change) := by
  by_cases hgoverns : change.governs reading "input" = true
  · cases change with
    | text s => cases hgoverns
    | visible b => cases hgoverns
    | prop own output =>
      have hown : own ≠ "value" := fun he => hne output (by rw [he])
      simp only [Change.governs, Bool.and_eq_true] at hgoverns
      obtain ⟨hkey, htextual⟩ := hkeeps.resolve_left hown
      have htype := hkey hgoverns.2
      rw [repaint, setProp, if_neg fun he => hown he.1]
      obtain ⟨hlater, hchecked, hvalue, hentry⟩ := hdom.textual_type _ _ _ htype (htextual htype) htext
      refine ⟨hlater, hdom.tag_write _ _, ?_, ?_, hentry⟩
      · rw [hdom.isCheckbox_of_isTextual _ hlater, hdom.isCheckbox_of_isTextual _ htext]
      · rw [fieldOf, fieldOf, hchecked, hvalue]
  · have hform := hdom.form_repaint htag (Bool.not_eq_true _ ▸ hgoverns) hne
    exact ⟨hform ▸ htext, hdom.same_of_form (hdom.tag_repaint _ _) hform⟩

theorem value_setField (text : String) (face : dom.Face) :
    dom.value (dom.form (dom.setField text face)) = dom.value (dom.form (dom.write (.value text) face)) := by
  rw [setField]
  split
  · rename_i heq
    have hown := hdom.value_own face
    rw [heq] at hown
    rw [hown, heq]
  · rfl

theorem checked_setField (text : String) (face : dom.Face) :
    dom.checked (dom.form (dom.setField text face)) = dom.checked (dom.form face) := by
  rw [setField]
  split
  · rfl
  · exact hdom.checked_value _ _

theorem isCheckbox_setField (text : String) (face : dom.Face) :
    dom.isCheckbox (dom.form (dom.setField text face)) = dom.isCheckbox (dom.form face) := by
  rw [setField]
  split
  · rfl
  · exact hdom.isCheckbox_value _ _

theorem isTextual_repaint {face : dom.Face} {change : Change} (htag : dom.tag face = "input")
    (htext : reading.isTextual (dom.form face) = true) (hkeeps : change.KeepsText reading) :
    reading.isTextual (dom.form (dom.repaint face change)) = true := by
  by_cases hvalue : ∃ output, change = .prop "value" output
  · obtain ⟨output, rfl⟩ := hvalue
    have hfield : dom.isField face = true := by rw [isField, htag]; rfl
    rw [repaint, setProp_value hfield, hdom.isCheckbox_of_isTextual _ htext, if_neg Bool.false_ne_true, setField]
    split
    · exact htext
    · exact hdom.isTextual_value _ _ htext
  · exact (hdom.same_repaint htag htext hkeeps fun output he => hvalue ⟨output, he⟩).1

theorem follows_attribute {name : String} {source? : Option Facet} {entry : Facet × FacetValue}
    (ht : entry.1.Takes entry.2) (hsource : source? = some entry.1 ↔ entry.1.sets reading tag name = true)
    (h : tag = "input" → reading.key name = reading.key "value" → (changeOf entry).KeepsText reading) :
    Follows (dom.attribute? · name)
      (fun face => dom.tag face = tag ∧
        (tag = "input" → reading.key name = reading.key "value" → reading.isTextual (dom.form face) = true))
      source? attributeOf entry := by
  rintro face ⟨htag, htext⟩
  refine ⟨⟨(hdom.tag_repaint _ _).trans htag, fun hinput hkey =>
    hdom.isTextual_repaint (htag.trans hinput) (htext hinput hkey) (h hinput hkey)⟩, ?_⟩
  rw [if_congr hsource rfl rfl]
  cases htarget : entry.1.target? with
  | some own =>
    obtain ⟨output, hvalue, hchange⟩ := changeOf_eq_prop ht htarget
    -- A value that goes to the field of an element sets no attribute.
    have hsets : entry.1.sets reading tag name =
        (!(own == "value" && isFieldTag tag) && reading.key own == reading.key name) := by
      cases hfacet : entry.1 with
      | text | visible => rw [hfacet] at htarget; cases htarget
      | value | prop _ => rw [hfacet] at htarget; obtain rfl := Option.some.inj htarget; rfl
    rw [hchange, hvalue, hsets]
    refine hdom.attribute?_setProp htag fun hinput hkey => ⟨htext hinput hkey, fun hown htype => ?_⟩
    have hkeeps := h hinput hkey
    rw [hchange] at hkeeps
    exact (hkeeps.resolve_left hown).2 htype
  | none =>
    obtain ⟨facet, value⟩ := entry
    rcases ht.cases with ⟨rfl, s, rfl⟩ | ⟨rfl, b, rfl⟩ | ⟨rfl, v, rfl⟩ | ⟨own, o, rfl, rfl⟩
    · exact hdom.attribute?_content s name face
    · refine (hdom.attribute?_hidden (!b) name face).trans ?_
      have hiff : reading.reflects = true ∧ reading.key name = reading.key "hidden" ↔
          Facet.sets reading tag name .visible = true := by
        simp [Facet.sets]
      rw [if_congr hiff rfl rfl]
      cases b <;> rfl
    · cases htarget
    · cases htarget

/-- A face whose field is that of another one, but for what a value decides that is set. -/
structure Alike (start face : dom.Face) : Prop where
  tag : dom.tag face = dom.tag start
  isCheckbox : dom.isCheckbox (dom.form face) = dom.isCheckbox (dom.form start)
  value : dom.isCheckbox (dom.form start) = true → dom.value (dom.form face) = dom.value (dom.form start)
  checked : dom.isCheckbox (dom.form start) = false → dom.checked (dom.form face) = dom.checked (dom.form start)
  entry : dom.isCheckbox (dom.form start) = false → ∀ text,
    dom.value (dom.form (dom.write (.value text) face)) = dom.value (dom.form (dom.write (.value text) start))

omit hdom in
theorem alike_self (start : dom.Face) : Alike start start := ⟨rfl, rfl, fun _ => rfl, fun _ => rfl, fun _ _ => rfl⟩

omit hdom in
theorem Alike.same {start face later : dom.Face} (h : Alike start face) (hsame : Same face later) :
    Alike start later where
  tag := hsame.tag.trans h.tag
  isCheckbox := hsame.isCheckbox.trans h.isCheckbox
  value hbox := (congrArg Prod.snd hsame.field).trans (h.value hbox)
  checked hbox := (congrArg Prod.fst hsame.field).trans (h.checked hbox)
  entry hbox text := (hsame.entry text).trans (h.entry hbox text)

theorem setValue {start face : dom.Face} (h : Alike start face) (hfield : isFieldTag (dom.tag start) = true)
    (output : Output) : Alike start (dom.setProp "value" output face) ∧
      dom.fieldOf (dom.setProp "value" output face) = dom.fieldOf (dom.setProp "value" output start) := by
  have hboth : dom.isField face = true := by rw [isField, h.tag, hfield]
  have htag := (hdom.tag_setProp "value" output face).trans h.tag
  rw [setProp_value hboth, h.isCheckbox] at htag ⊢
  have hstart : dom.isField start = true := hfield
  rw [setProp_value hstart]
  -- A checkbox takes the mark and keeps its text; any other field takes the text and keeps its mark.
  cases hbox : dom.isCheckbox (dom.form start) with
  | true =>
    rw [hbox, if_pos rfl] at htag
    rw [if_pos rfl, if_pos rfl]
    refine ⟨⟨htag, ?_, fun _ => ?_, fun hno => ?_, fun hno => ?_⟩, ?_⟩
    · rw [hdom.isCheckbox_checked, h.isCheckbox]
    · rw [hdom.value_checked, h.value hbox]
    · rw [hbox] at hno
      cases hno
    · rw [hbox] at hno
      cases hno
    · rw [fieldOf, fieldOf, hdom.checked_checked, hdom.checked_checked, hdom.value_checked, hdom.value_checked,
        h.value hbox]
  | false =>
    rw [hbox, if_neg Bool.false_ne_true] at htag
    rw [if_neg Bool.false_ne_true, if_neg Bool.false_ne_true]
    refine ⟨⟨htag, ?_, fun hyes => ?_, fun _ => ?_, fun _ text => ?_⟩, ?_⟩
    · rw [hdom.isCheckbox_setField, h.isCheckbox]
    · rw [hbox] at hyes
      cases hyes
    · rw [hdom.checked_setField, h.checked hbox]
    · rw [setField]
      split
      · exact h.entry hbox text
      · rw [hdom.value_value, h.entry hbox text]
    · rw [fieldOf, fieldOf, hdom.checked_setField, hdom.checked_setField, hdom.value_setField,
        hdom.value_setField, h.checked hbox, h.entry hbox]

omit hdom in
theorem not_prop_value {entry : Facet × FacetValue} (ht : entry.1.Takes entry.2) (h : ¬entry.1.enters = true)
    (output : Output) : changeOf entry ≠ .prop "value" output := by
  obtain ⟨facet, value⟩ := entry
  rcases ht.cases with ⟨rfl, s, rfl⟩ | ⟨rfl, b, rfl⟩ | ⟨rfl, v, rfl⟩ | ⟨name, o, rfl, rfl⟩
  · exact Change.noConfusion
  · exact Change.noConfusion
  · exact absurd rfl h
  · intro he
    obtain ⟨rfl, -⟩ := Change.prop.inj he
    exact h rfl

section Following

variable {source? : Option Facet} {start : dom.Face} {entry : Facet × FacetValue} (ht : entry.1.Takes entry.2)

include ht

theorem follows_field (hfield : isFieldTag (dom.tag start) = true)
    (hsource : source? = some entry.1 ↔ entry.1.enters = true)
    (hquiet : entry.1.governs reading (dom.tag start) = false) :
    Follows dom.fieldOf (Alike start) source? (fun value => dom.fieldOf (dom.setProp "value" (outputOf value) start))
      entry := by
  intro face h
  rw [if_congr hsource rfl rfl]
  by_cases henters : entry.1.enters = true
  · obtain ⟨output, hvalue, hchange⟩ := changeOf_eq_prop ht (beq_iff_eq.1 henters)
    rw [if_pos henters, hchange, hvalue]
    exact hdom.setValue h hfield output
  · have hsame : Same face (dom.repaint face (changeOf entry)) := by
      refine hdom.same_of_form (hdom.tag_repaint _ _) (hdom.form_repaint h.tag ?_ (not_prop_value ht henters))
      rw [governs_changeOf ht, hquiet]
    rw [if_neg henters]
    exact ⟨h.same hsame, hsame.field⟩

theorem follows_text (htag : dom.tag start = "input") (hsource : source? = some entry.1 ↔ entry.1.enters = true)
    (hkeeps : (changeOf entry).KeepsText reading) :
    Follows dom.fieldOf (fun face => Alike start face ∧ reading.isTextual (dom.form face) = true) source?
      (fun value => dom.fieldOf (dom.setProp "value" (outputOf value) start)) entry := by
  rintro face ⟨h, htext⟩
  have hinput := h.tag.trans htag
  have hlater := hdom.isTextual_repaint hinput htext hkeeps
  rw [if_congr hsource rfl rfl]
  by_cases henters : entry.1.enters = true
  · obtain ⟨output, hvalue, hchange⟩ := changeOf_eq_prop ht (beq_iff_eq.1 henters)
    rw [hchange] at hlater
    rw [if_pos henters, hchange, hvalue]
    obtain ⟨halike, hequal⟩ := hdom.setValue h (by rw [htag]; rfl) output
    exact ⟨⟨halike, hlater⟩, hequal⟩
  · obtain ⟨-, hsame⟩ := hdom.same_repaint hinput htext hkeeps (not_prop_value ht henters)
    rw [if_neg henters]
    exact ⟨⟨h.same hsame, hlater⟩, hsame.field⟩

end Following

/-- A face that a facet changes as it would change another one. -/
structure Echoes (reading : dom.Reading) (facet : Facet) (start face : dom.Face) : Prop where
  tag : dom.tag face = dom.tag start
  alone : dom.tag start = "input" → ∀ name, facet = .prop name → reading.alone name (dom.form face) = true
  form : ∀ value, facet.Takes value →
    dom.form (dom.repaint face (changeOf (facet, value))) = dom.form (dom.repaint start (changeOf (facet, value)))

theorem form_repaint_congr {face other : dom.Face} {change : Change} (hne : ∀ output, change ≠ .prop "value" output)
    (h : dom.form face = dom.form other) :
    dom.form (dom.repaint face change) = dom.form (dom.repaint other change) := by
  cases change with
  | text s => exact hdom.form_congr _ _ _ h
  | visible b => exact hdom.form_congr _ _ _ h
  | prop own output =>
    have hown : own ≠ "value" := fun he => hne output (by rw [he])
    rw [repaint, repaint, setProp, setProp, if_neg fun he => hown he.1, if_neg fun he => hown he.1]
    exact hdom.form_congr _ _ _ h

omit hdom in
theorem not_enters_of_governs {facet : Facet} (h : facet.governs reading tag = true) : ¬facet.enters = true := by
  intro henters
  cases facet with
  | text | visible => cases henters
  | value => simp [Facet.governs, Facet.target?] at h
  | prop name =>
    obtain rfl : name = "value" := Option.some.inj (beq_iff_eq.1 henters)
    simp [Facet.governs, Facet.target?] at h

theorem Echoes.repaint {facet : Facet} {start face : dom.Face} (h : Echoes reading facet start face)
    (hgoverns : facet.governs reading (dom.tag start) = true) {value : FacetValue} (ht : facet.Takes value) :
    Echoes reading facet start (dom.repaint face (changeOf (facet, value))) := by
  have htag := (hdom.tag_repaint face (changeOf (facet, value))).trans h.tag
  rcases ht.cases with ⟨rfl, s, rfl⟩ | ⟨rfl, b, rfl⟩ | ⟨rfl, v, rfl⟩ | ⟨name, o, rfl, rfl⟩
  · refine ⟨htag, fun _ _ => nofun, fun value ht' => ?_⟩
    rcases ht'.cases with ⟨-, t, rfl⟩ | ⟨he, -⟩ | ⟨he, -⟩ | ⟨_, _, he, -⟩
    · exact (hdom.form_content_content t s face).trans (h.form _ ht')
    · cases he
    · cases he
    · cases he
  · cases hgoverns
  · cases not_enters_of_governs hgoverns rfl
  · have hown : name ≠ "value" := fun he => not_enters_of_governs hgoverns (by rw [he]; rfl)
    have hinput : dom.tag start = "input" := by
      simp only [Facet.governs, Facet.target?, Option.any_some, Bool.and_eq_true, beq_iff_eq] at hgoverns
      exact hgoverns.1.2
    have hprop (face : dom.Face) (output : Output) :
        dom.repaint face (changeOf (.prop name, .output output)) =
          dom.write (.attr name (attributeText output)) face :=
      if_neg fun he => hown he.1
    have halone := h.alone hinput name rfl
    refine ⟨htag, fun _ own he => ?_, fun value ht' => ?_⟩
    · obtain rfl := Facet.prop.inj he
      rw [hprop]
      exact hdom.alone_attribute _ _ _ halone
    · rcases ht'.cases with ⟨he, -⟩ | ⟨he, -⟩ | ⟨he, -⟩ | ⟨own, output, he, rfl⟩
      · cases he
      · cases he
      · cases he
      · rw [← h.form _ ht', hprop, hprop, hprop, hdom.form_attribute_attribute _ _ _ _ halone]

theorem follows_sole {facet : Facet} {start : dom.Face} {entry : Facet × FacetValue} (ht : entry.1.Takes entry.2)
    (hgoverns : facet.governs reading (dom.tag start) = true) (hne : ¬entry.1.enters = true)
    (hsole : entry.1.governs reading (dom.tag start) = true → entry.1 = facet) :
    Follows dom.fieldOf (Echoes reading facet start) (some facet)
      (fun value => dom.fieldOf (dom.repaint start (changeOf (facet, value)))) entry := by
  intro face h
  by_cases hentry : facet = entry.1
  · subst hentry
    rw [if_pos rfl]
    exact ⟨h.repaint hdom hgoverns ht, fieldOf_congr (h.form _ ht)⟩
  · have hquiet : (changeOf entry).governs reading (dom.tag start) = false := by
      rw [governs_changeOf ht, ← Bool.not_eq_true]
      exact fun hyes => hentry (hsole hyes).symm
    have hform := hdom.form_repaint h.tag hquiet (not_prop_value ht hne)
    rw [if_neg fun he => hentry (Option.some.inj he)]
    refine ⟨⟨(hdom.tag_repaint _ _).trans h.tag, fun hinput name he => hform ▸ h.alone hinput name he,
      fun value ht' => ?_⟩, fieldOf_congr hform⟩
    have hfacet : ∀ output, changeOf (facet, value) ≠ .prop "value" output :=
      not_prop_value ht' (not_enters_of_governs hgoverns)
    exact (hdom.form_repaint_congr hfacet hform).trans (h.form value ht')

theorem form_planted {node : Node} (h : tagOf node.kind = "input") : dom.form (dom.planted node) =
    if node.kind = "checkbox" then dom.form (dom.write (.attr "type" (some "checkbox")) (dom.create "input"))
    else dom.form (dom.create "input") := by
  have hmarked (face : dom.Face) : dom.form (dom.write (.attr kindAttribute (some node.kind))
      (dom.write (.attr refAttribute (some (toString node.ref))) face)) = dom.form face := by
    rw [hdom.form_attribute _ _ _ fun _ => hdom.governs_kind, hdom.form_attribute _ _ _ fun _ => hdom.governs_ref]
  have hface : dom.form (dom.faceOf "input" node) = if node.kind = "checkbox" then
      dom.form (dom.write (.attr "type" (some "checkbox")) (dom.create "input")) else dom.form (dom.create "input") := by
    simp only [faceOf]
    split
    · exact hdom.form_congr _ _ _ (hmarked _)
    · exact hmarked _
  rw [planted, h]
  split
  · rw [hdom.form_content _ _ (by rw [hdom.tag_faceOf]; decide), hface]
  · exact hface

theorem isTextual_planted {node : Node} (h : tagOf node.kind = "input") (hkind : node.kind ≠ "checkbox") :
    reading.isTextual (dom.form (dom.planted node)) = true := by
  rw [hdom.form_planted h, if_neg hkind, hdom.isTextual_create]

theorem echoes_planted (facet : Facet) (node : Node) :
    Echoes reading facet (dom.planted node) (dom.planted node) := by
  refine ⟨rfl, fun hinput name _ => ?_, fun _ _ => rfl⟩
  rw [hdom.tag_planted] at hinput
  rw [hdom.form_planted hinput]
  split
  · exact hdom.alone_type name
  · exact hdom.alone_create name "input"

theorem form_repaintAll {values : List (Facet × FacetValue)} (ht : ∀ entry ∈ values, entry.1.Takes entry.2)
    (hne : ∀ entry ∈ values, entry.1.enters = false) {face other : dom.Face} (htag : dom.tag face = tag)
    (hform : dom.form face = dom.form other) : dom.form (dom.repaintAll face values) =
      dom.form (dom.repaintAll other (values.filter fun entry => entry.1.governs reading tag)) := by
  induction values generalizing face other with
  | nil => exact hform
  | cons entry rest ih =>
    obtain ⟨htake, htakes⟩ := List.forall_mem_cons.1 ht
    obtain ⟨hentry, hothers⟩ := List.forall_mem_cons.1 hne
    have hvalue := not_prop_value htake (Bool.not_eq_true _ ▸ hentry)
    have htag' := (hdom.tag_repaint face (changeOf entry)).trans htag
    rw [List.filter_cons]
    split
    · exact ih htakes hothers htag' (hdom.form_repaint_congr hvalue hform)
    · rename_i hquiet
      refine ih htakes hothers htag' ((hdom.form_repaint htag ?_ hvalue).trans hform)
      rw [governs_changeOf htake, ← Bool.not_eq_true]
      exact hquiet

end Lawful

section Writing

variable {n : ArenaNode} {node : Node} {written : List (Facet × FacetValue)}

theorem planted_eq {other : Node} (h : node.Fits n) (hother : other.Fits n) :
    dom.planted node = dom.planted other := by
  rw [planted, planted, faceOf, faceOf, h.text_isSome, hother.text_isSome, h.ref_eq, hother.ref_eq,
    Tree.kind_eq_of_fits h, Tree.kind_eq_of_fits hother]

variable (hfits : node.Fits n) (hlast : (node.writeAll written).Fits n)
  (hwritten : ∀ entry ∈ written, entry.1 ∈ n.facets ∧ entry.1.Takes entry.2)

include hfits hwritten

theorem takes_written : ∀ entry ∈ node.shown ++ written, entry.1 ∈ n.facets ∧ entry.1.Takes entry.2 := by
  intro entry hentry
  rcases List.mem_append.1 hentry with hentry | hentry
  · have hshown := hfits.accepts_shown
    exact ⟨hshown.facets.subset (List.mem_map_of_mem hentry), hshown.takes entry hentry⟩
  · exact hwritten entry hentry

include hlast

theorem mem_written {entry : Facet × FacetValue} (h : entry ∈ (node.writeAll written).shown) :
    entry ∈ node.shown ++ written := by
  obtain ⟨facet, hfacet, rfl⟩ := List.mem_map.1 h
  rw [hlast.facets, ← hfits.facets] at hfacet
  rw [List.mem_append]
  rcases Node.read_writeAll_cases (fun entry he => (hwritten entry he).2) node facet with hmem | hsame
  · exact .inr hmem
  · rw [hsame]
    exact .inl (List.mem_map_of_mem hfacet)

theorem observe_agrees {α : Type} {observe : dom.Face → α} {steady : dom.Face → Prop} {source? : Option Facet}
    {tell : FacetValue → α} (hsource : ∀ facet ∈ source?, facet ∈ n.facets) (hsteady : steady (dom.planted node))
    (hstep : ∀ entry ∈ node.shown ++ written, Follows observe steady source? tell entry) :
    observe (dom.repaintAll (dom.planted node) (node.shown ++ written)) =
      observe (dom.repaintAll (dom.planted (node.writeAll written)) (node.writeAll written).shown) := by
  have htold (values : List (Facet × FacetValue)) (hvalues : ∀ entry ∈ values, entry ∈ node.shown ++ written)
      (hall : ∀ facet ∈ n.facets, facet ∈ values.map Prod.fst) :
      Tells observe source? tell (observe (dom.planted node)) (dom.repaintAll (dom.planted node) values)
        ((Node.shell n).writeAll values) := by
    refine (tells_repaintAll (fun entry he => (takes_written hfits hwritten entry (hvalues entry he)).2)
      (fun entry he => hstep entry (hvalues entry he)) hsteady ?_).2
    cases hfacet : source? with
    | none => exact .inl rfl
    | some facet => exact .inr ⟨facet, hall facet (hsource facet hfacet), rfl⟩
  have hkept := htold (node.shown ++ written) (fun _ he => he) fun facet hf => by
    rw [List.map_append, Node.map_fst_shown, hfits.facets]
    exact List.mem_append_left _ hf
  have hfresh := htold (node.writeAll written).shown (fun _ he => mem_written hfits hlast hwritten he)
    fun facet hf => by rw [Node.map_fst_shown, hlast.facets]; exact hf
  have hwhole : (Node.shell n).writeAll (node.shown ++ written) = node.writeAll written := by
    rw [Node.writeAll_append, hfits.rebuild]
  rw [hwhole] at hkept
  rw [hlast.rebuild] at hfresh
  rw [planted_eq hlast hfits]
  exact hkept.trans hfresh.symm

end Writing

section Early

variable {reading : dom.Reading} (hdom : dom.Lawful reading) {n : ArenaNode} (hfield : isFieldTag n.tag = true)
  (hsingle : n.Single Facet.enters)
  (hordered : n.facets.Pairwise fun facet other => facet.enters = true → other.governs reading n.tag = false)

include hdom hfield hsingle hordered

/-- If what governs a field is written first, the field follows what is entered from then on. -/
theorem exists_governed {node : Node} (hfits : node.Fits n) {written : List (Facet × FacetValue)}
    (hwritten : ∀ entry ∈ written, entry.1 ∈ n.facets ∧ entry.1.Takes entry.2)
    (hquiet : ∀ entry ∈ written, entry.1.governs reading n.tag = false) :
    ∃ start, dom.tag start = n.tag ∧ dom.form start = dom.form (dom.repaintAll (dom.planted node)
        (node.shown.filter fun entry => entry.1.governs reading n.tag)) ∧
      Tells dom.fieldOf (n.facets.find? Facet.enters)
        (fun value => dom.fieldOf (dom.setProp "value" (outputOf value) start))
        (dom.fieldOf start) (dom.repaintAll (dom.planted node) (node.shown ++ written)) (node.writeAll written) := by
  have hfacets : node.shown.map Prod.fst = n.facets := node.map_fst_shown.trans hfits.facets
  have hall := takes_written hfits hwritten
  rw [← hfacets, List.pairwise_map] at hordered
  obtain ⟨first, rest, hshown, hfirst, hrest⟩ := List.exists_cut_of_pairwise
    (p := fun entry : Facet × FacetValue => entry.1.enters) (q := fun entry => entry.1.governs reading n.tag) hordered
    fun entry henters => by
      rw [← Bool.not_eq_true]
      exact fun hyes => Lawful.not_enters_of_governs hyes henters
  have htag : dom.tag (dom.planted node) = n.tag :=
    (hdom.tag_planted node).trans (by rw [Tree.kind_eq_of_fits hfits]; rfl)
  have hfilter : node.shown.filter (fun entry => entry.1.governs reading n.tag) =
      first.filter fun entry => entry.1.governs reading n.tag := by
    have hnone : rest.filter (fun entry => entry.1.governs reading n.tag) = [] :=
      List.filter_eq_nil_iff.2 fun entry he => by rw [hrest entry he]; exact Bool.false_ne_true
    rw [hshown, List.filter_append, hnone, List.append_nil]
  have hstart := (hdom.tag_repaintAll (dom.planted node) first).trans htag
  refine ⟨dom.repaintAll (dom.planted node) first, hstart, ?_, ?_⟩
  · rw [hfilter]
    refine hdom.form_repaintAll (fun entry he => (hall entry ?_).2) hfirst htag rfl
    rw [hshown, List.append_assoc]
    exact List.mem_append_left _ he
  · have hwhole : ((Node.shell n).writeAll first).writeAll (rest ++ written) = node.writeAll written := by
      rw [← Node.writeAll_append, ← List.append_assoc, ← hshown, Node.writeAll_append, hfits.rebuild]
    have hlater : ∀ entry ∈ rest ++ written, entry.1 ∈ n.facets ∧ entry.1.Takes entry.2 := fun entry he => by
      refine hall entry ?_
      rw [hshown, List.append_assoc]
      exact List.mem_append_right _ he
    rw [hshown, List.append_assoc, repaintAll_append, ← hwhole]
    refine (tells_repaintAll (fun entry he => (hlater entry he).2) (fun entry he => ?step)
      (Lawful.alike_self _) ?source).2
    case step =>
      obtain ⟨hfacet, htake⟩ := hlater entry he
      refine hdom.follows_field htake (hstart ▸ hfield) (List.find?_eq_some_iff_of_unique hsingle hfacet) ?_
      rw [hstart]
      exact (List.mem_append.1 he).elim (hrest entry) (hquiet entry)
    case source =>
      cases hsource : n.facets.find? Facet.enters with
      | none => exact .inl rfl
      | some facet =>
        have hmem := List.mem_of_find?_eq_some hsource
        rw [← hfacets, hshown, List.map_append, List.mem_append] at hmem
        refine .inr ⟨facet, ?_, rfl⟩
        rw [List.map_append, List.mem_append]
        refine .inl (hmem.resolve_left fun hin => ?_)
        obtain ⟨entry, he, rfl⟩ := List.mem_map.1 hin
        exact Bool.noConfusion ((hfirst entry he).symm.trans (List.find?_some hsource))

theorem field_agrees {node : Node} {written : List (Facet × FacetValue)} (hfits : node.Fits n)
    (hlast : (node.writeAll written).Fits n)
    (hwritten : ∀ entry ∈ written, entry.1 ∈ n.facets ∧ entry.1.Takes entry.2)
    (hquiet : ∀ entry ∈ written, entry.1.governs reading n.tag = false) :
    dom.fieldOf (dom.repaintAll (dom.planted node) (node.shown ++ written)) =
      dom.fieldOf (dom.repaintAll (dom.planted (node.writeAll written)) (node.writeAll written).shown) := by
  obtain ⟨start, htag, hform, hkept⟩ := exists_governed hdom hfield hsingle hordered hfits hwritten hquiet
  have hnone : ∀ entry ∈ ([] : List (Facet × FacetValue)), entry.1 ∈ n.facets ∧ entry.1.Takes entry.2 :=
    List.forall_mem_nil _
  obtain ⟨fresh, htag', hform', hfresh⟩ := exists_governed hdom hfield hsingle hordered hlast hnone
    (List.forall_mem_nil _)
  have hshown : node.shown.filter (fun entry => entry.1.governs reading n.tag) =
      (node.writeAll written).shown.filter fun entry => entry.1.governs reading n.tag := by
    rw [Node.shown, Node.shown, hlast.facets, hfits.facets, List.filter_map, List.filter_map]
    refine List.map_congr_left fun facet hfacet => ?_
    have hgoverns : facet.governs reading n.tag = true := (List.mem_filter.1 hfacet).2
    have hnot : facet ∉ written.map Prod.fst := fun hin => by
      obtain ⟨entry, he, rfl⟩ := List.mem_map.1 hin
      exact Bool.noConfusion ((hquiet entry he).symm.trans hgoverns)
    rw [Node.read_writeAll_of_notMem hnot]
  have hsame : dom.form start = dom.form fresh := by
    rw [hform, hform', hshown, planted_eq hlast hfits]
  have halike := (Lawful.alike_self fresh).same (hdom.same_of_form (htag.trans htag'.symm) hsame)
  have htell (output : Output) : dom.fieldOf (dom.setProp "value" output start) =
      dom.fieldOf (dom.setProp "value" output fresh) := (hdom.setValue halike (htag' ▸ hfield) output).2
  rw [List.append_nil] at hfresh
  rw [Tells] at hkept hfresh
  simp only [htell, fieldOf_congr hsame] at hkept
  exact hkept.trans hfresh.symm

end Early

section Agreement

variable {reading : dom.Reading} (hdom : dom.Lawful reading) {n : ArenaNode} {node : Node} (hfits : node.Fits n)
  {written : List (Facet × FacetValue)} (hlast : (node.writeAll written).Fits n)
  (hwritten : ∀ entry ∈ written, entry.1 ∈ n.facets ∧ entry.1.Takes entry.2)

theorem tag_planted_of_fits (hdom : dom.Lawful reading) (hfits : node.Fits n) :
    dom.tag (dom.planted node) = n.tag := by
  rw [hdom.tag_planted, Tree.kind_eq_of_fits hfits]
  rfl

include hfits hlast hwritten

theorem observe_agrees_of_single {α : Type} {observe : dom.Face → α} {steady : dom.Face → Prop} {sort : Facet → Bool}
    {tell : FacetValue → α} (hsingle : n.Single sort) (hsteady : steady (dom.planted node))
    (hstep : ∀ entry ∈ node.shown ++ written, ∀ source?, (source? = some entry.1 ↔ sort entry.1 = true) →
      Follows observe steady source? tell entry) :
    observe (dom.repaintAll (dom.planted node) (node.shown ++ written)) =
      observe (dom.repaintAll (dom.planted (node.writeAll written)) (node.writeAll written).shown) :=
  observe_agrees hfits hlast hwritten (fun _ hf => List.mem_of_find?_eq_some hf) hsteady fun entry he =>
    hstep entry he _ (List.find?_eq_some_iff_of_unique hsingle (takes_written hfits hwritten entry he).1)

include hdom

theorem hidden_agrees (h : reading.reflects = true → n.Single (·.sets reading n.tag "hidden")) :
    dom.hidden (dom.repaintAll (dom.planted node) (node.shown ++ written)) =
      dom.hidden (dom.repaintAll (dom.planted (node.writeAll written)) (node.writeAll written).shown) := by
  have hvisible : Facet.visible ∈ n.facets := hfits.facets ▸ Node.mem_facets_visible
  have hstep : ∀ entry ∈ node.shown ++ written,
      Follows dom.hidden (fun face => dom.tag face = n.tag) (some .visible) hiddenOf entry := fun entry he => by
    obtain ⟨hfacet, htake⟩ := takes_written hfits hwritten entry he
    refine hdom.follows_hidden htake fun hreflects hsets => h hreflects _ hfacet _ hvisible hsets ?_
    simp [Facet.sets, hreflects]
  exact observe_agrees hfits hlast hwritten (fun facet hf => Option.some.inj hf ▸ hvisible)
    (tag_planted_of_fits hdom hfits) hstep

theorem attribute_agrees {name : String} (hsingle : n.Single (·.sets reading n.tag name))
    (h : n.tag = "input" → reading.key name = reading.key "value" → n.node.kind ≠ "checkbox" ∧
      ∀ entry ∈ node.shown ++ written, (changeOf entry).KeepsText reading) :
    dom.attribute? (dom.repaintAll (dom.planted node) (node.shown ++ written)) name =
      dom.attribute? (dom.repaintAll (dom.planted (node.writeAll written)) (node.writeAll written).shown) name := by
  have hstep (entry) (he : entry ∈ node.shown ++ written) (source? : Option Facet)
      (hsource : source? = some entry.1 ↔ entry.1.sets reading n.tag name = true) :=
    hdom.follows_attribute (takes_written hfits hwritten entry he).2 hsource fun hinput hkey =>
      (h hinput hkey).2 entry he
  refine observe_agrees_of_single hfits hlast hwritten hsingle
    ⟨tag_planted_of_fits hdom hfits, fun hinput hkey => ?_⟩ hstep
  exact hdom.isTextual_planted (Tree.kind_eq_of_fits hfits ▸ hinput) (Tree.kind_eq_of_fits hfits ▸ (h hinput hkey).1)

theorem text_agrees (hsingle : n.Single Facet.enters) (hinput : n.tag = "input") (hkind : n.node.kind ≠ "checkbox")
    (h : ∀ entry ∈ node.shown ++ written, (changeOf entry).KeepsText reading) :
    dom.fieldOf (dom.repaintAll (dom.planted node) (node.shown ++ written)) =
      dom.fieldOf (dom.repaintAll (dom.planted (node.writeAll written)) (node.writeAll written).shown) := by
  have hkind' := Tree.kind_eq_of_fits hfits
  have htag := (tag_planted_of_fits hdom hfits).trans hinput
  have htext := hdom.isTextual_planted (hkind' ▸ hinput) (hkind' ▸ hkind)
  have hstep (entry) (he : entry ∈ node.shown ++ written) (source? : Option Facet)
      (hsource : source? = some entry.1 ↔ entry.1.enters = true) :=
    hdom.follows_text (takes_written hfits hwritten entry he).2 htag hsource (h entry he)
  exact observe_agrees_of_single hfits hlast hwritten hsingle ⟨Lawful.alike_self _, htext⟩ hstep

theorem bare_agrees (hfield : isFieldTag n.tag = true) (hnone : ∀ facet ∈ n.facets, facet.enters = false)
    (hsingle : n.Single (·.governs reading n.tag)) :
    dom.fieldOf (dom.repaintAll (dom.planted node) (node.shown ++ written)) =
      dom.fieldOf (dom.repaintAll (dom.planted (node.writeAll written)) (node.writeAll written).shown) := by
  have htag := tag_planted_of_fits hdom hfits
  by_cases hgoverns : ∃ facet ∈ n.facets, facet.governs reading n.tag = true
  · obtain ⟨sole, hsole, hyes⟩ := hgoverns
    have hstep : ∀ entry ∈ node.shown ++ written,
        Follows dom.fieldOf (Lawful.Echoes reading sole (dom.planted node)) (some sole)
          (fun value => dom.fieldOf (dom.repaint (dom.planted node) (changeOf (sole, value)))) entry := fun entry he => by
      obtain ⟨hfacet, htake⟩ := takes_written hfits hwritten entry he
      refine hdom.follows_sole htake (htag.symm ▸ hyes) ?_ fun hentry => ?_
      · rw [hnone _ hfacet]
        exact Bool.false_ne_true
      · rw [htag] at hentry
        exact hsingle _ hfacet _ hsole hentry hyes
    exact observe_agrees hfits hlast hwritten (fun facet hf => Option.some.inj hf ▸ hsole)
      (hdom.echoes_planted sole node) hstep
  · have hquiet {facet : Facet} (hf : facet ∈ n.facets) : facet.governs reading n.tag = false := by
      rw [← Bool.not_eq_true]
      exact fun hyes => hgoverns ⟨facet, hf, hyes⟩
    have hordered := List.pairwise_of_forall_mem_list (l := n.facets)
      (r := fun facet other => facet.enters = true → other.governs reading n.tag = false) fun _ _ _ hf _ => hquiet hf
    exact field_agrees hdom hfield (fun _ hf _ _ henters => Bool.noConfusion ((hnone _ hf).symm.trans henters)) hordered
      hfits hlast hwritten fun entry he => hquiet (hwritten entry he).1

end Agreement

end Dom

end ReactiveView
