import Mathlib.Tactic.SplitIfs
import ReactiveView.Page.Html
import ReactiveView.Page.Plain
import ReactiveView.Proofs.Planting

namespace ReactiveView

/-- How a document reads what is written to its elements: names with one key stand for one attribute, the hidden
flag may be an attribute, some attributes govern the field of an input, and among the types of inputs some make
nothing but a field for text. A form is alone with an attribute if nothing else was written to it. -/
structure Dom.Reading (dom : Dom) where
  key : String → String
  reflects : Bool
  governs : String → Bool
  textual : String → Bool
  isTextual : dom.Form → Bool
  alone : String → dom.Form → Bool

/-- What pages rely on about a document. -/
structure Dom.Lawful (dom : Dom) (reading : dom.Reading) : Prop where
  tag_create : ∀ tag, dom.tag (dom.create tag) = tag
  tag_write : ∀ w face, dom.tag (dom.write w face) = dom.tag face
  attribute?_attribute : ∀ name text other face, (dom.tag face = "input" → reading.key other = reading.key "value" →
      reading.isTextual (dom.form face) = true ∧
        (reading.key name = reading.key "type" → ∀ type ∈ text, reading.textual type = true)) →
    dom.attribute? (dom.write (.attr name text) face) other =
      if reading.key name = reading.key other then text else dom.attribute? face other
  attribute?_hidden : ∀ flag other face, dom.attribute? (dom.write (.hidden flag) face) other =
    if reading.reflects ∧ reading.key other = reading.key "hidden" then (if flag then some "" else none)
    else dom.attribute? face other
  attribute?_value : ∀ text other face, dom.isField face →
    (dom.tag face = "input" → reading.key other = reading.key "value" → reading.isTextual (dom.form face) = true) →
    dom.attribute? (dom.write (.value text) face) other = dom.attribute? face other
  attribute?_checked : ∀ flag other face,
    dom.attribute? (dom.write (.checked flag) face) other = dom.attribute? face other
  attribute?_content : ∀ text other face,
    dom.attribute? (dom.write (.content text) face) other = dom.attribute? face other
  hidden_hidden : ∀ flag face, dom.hidden (dom.write (.hidden flag) face) = flag
  hidden_attribute : ∀ name text face, (reading.reflects → reading.key name ≠ reading.key "hidden") →
    dom.hidden (dom.write (.attr name text) face) = dom.hidden face
  hidden_value : ∀ text face, dom.hidden (dom.write (.value text) face) = dom.hidden face
  hidden_checked : ∀ flag face, dom.hidden (dom.write (.checked flag) face) = dom.hidden face
  hidden_content : ∀ text face, dom.hidden (dom.write (.content text) face) = dom.hidden face
  form_congr : ∀ w face other, dom.form face = dom.form other →
    dom.form (dom.write w face) = dom.form (dom.write w other)
  form_hidden : ∀ flag face, dom.form (dom.write (.hidden flag) face) = dom.form face
  form_attribute : ∀ name text face, (dom.tag face = "input" → reading.governs name = false) →
    dom.form (dom.write (.attr name text) face) = dom.form face
  form_content : ∀ text face, dom.tag face ≠ "textarea" → dom.form (dom.write (.content text) face) = dom.form face
  form_content_content : ∀ text other face,
    dom.form (dom.write (.content text) (dom.write (.content other) face)) = dom.form (dom.write (.content text) face)
  value_own : ∀ face,
    dom.value (dom.form (dom.write (.value (dom.value (dom.form face))) face)) = dom.value (dom.form face)
  value_value : ∀ text other face, dom.value (dom.form (dom.write (.value text) (dom.write (.value other) face))) =
    dom.value (dom.form (dom.write (.value text) face))
  checked_value : ∀ text face, dom.checked (dom.form (dom.write (.value text) face)) = dom.checked (dom.form face)
  isCheckbox_value : ∀ text face,
    dom.isCheckbox (dom.form (dom.write (.value text) face)) = dom.isCheckbox (dom.form face)
  checked_checked : ∀ flag face, dom.checked (dom.form (dom.write (.checked flag) face)) = flag
  value_checked : ∀ flag face, dom.value (dom.form (dom.write (.checked flag) face)) = dom.value (dom.form face)
  isCheckbox_checked : ∀ flag face,
    dom.isCheckbox (dom.form (dom.write (.checked flag) face)) = dom.isCheckbox (dom.form face)
  isCheckbox_create : ∀ tag, dom.isCheckbox (dom.form (dom.create tag)) = false
  isCheckbox_type : ∀ face, dom.tag face = "input" →
    dom.isCheckbox (dom.form (dom.write (.attr "type" (some "checkbox")) face)) = true
  tag_of_isCheckbox : ∀ face, dom.isCheckbox (dom.form face) = true → dom.tag face = "input"
  governs_ref : reading.governs refAttribute = false
  governs_kind : reading.governs kindAttribute = false
  alone_create : ∀ name tag, reading.alone name (dom.form (dom.create tag)) = true
  alone_type : ∀ name,
    reading.alone name (dom.form (dom.write (.attr "type" (some "checkbox")) (dom.create "input"))) = true
  alone_attribute : ∀ name text face, reading.alone name (dom.form face) = true →
    reading.alone name (dom.form (dom.write (.attr name text) face)) = true
  form_attribute_attribute : ∀ name text other face, reading.alone name (dom.form face) = true →
    dom.form (dom.write (.attr name text) (dom.write (.attr name other) face)) =
      dom.form (dom.write (.attr name text) face)
  isTextual_create : reading.isTextual (dom.form (dom.create "input")) = true
  isCheckbox_of_isTextual : ∀ form, reading.isTextual form = true → dom.isCheckbox form = false
  isTextual_value : ∀ text face, reading.isTextual (dom.form face) = true →
    reading.isTextual (dom.form (dom.write (.value text) face)) = true
  textual_type : ∀ name text face, reading.key name = reading.key "type" →
    (∀ type ∈ text, reading.textual type = true) →
    reading.isTextual (dom.form face) = true →
      reading.isTextual (dom.form (dom.write (.attr name text) face)) = true ∧
      dom.checked (dom.form (dom.write (.attr name text) face)) = dom.checked (dom.form face) ∧
      dom.value (dom.form (dom.write (.attr name text) face)) = dom.value (dom.form face) ∧
      ∀ next, dom.value (dom.form (dom.write (.value next) (dom.write (.attr name text) face))) =
        dom.value (dom.form (dom.write (.value next) face))

namespace Dom.Lawful

variable {dom : Dom} {reading : dom.Reading} (h : dom.Lawful reading)

include h

theorem tag_faceOf (tag : String) (node : Node) : dom.tag (dom.faceOf tag node) = tag := by
  simp only [faceOf]
  split <;> simp only [h.tag_write, h.tag_create]

theorem tag_planted (node : Node) : dom.tag (dom.planted node) = tagOf node.kind := by
  rw [planted]
  split <;> simp only [h.tag_write, h.tag_faceOf]

theorem isField_planted (node : Node) : dom.isField (dom.planted node) = isFieldTag (tagOf node.kind) := by
  rw [isField, h.tag_planted]

theorem isCheckbox_content (text : String) (face : dom.Face) :
    dom.isCheckbox (dom.form (dom.write (.content text) face)) = dom.isCheckbox (dom.form face) := by
  by_cases htag : dom.tag face = "textarea"
  · have hnone (other : dom.Face) (hother : dom.tag other = "textarea") :
        dom.isCheckbox (dom.form other) = false := by
      rw [← Bool.not_eq_true]
      intro hbox
      rw [h.tag_of_isCheckbox other hbox] at hother
      exact absurd hother (by decide)
    rw [hnone face htag, hnone _ ((h.tag_write _ _).trans htag)]
  · rw [h.form_content text face htag]

theorem isCheckbox_planted (node : Node) :
    dom.isCheckbox (dom.form (dom.planted node)) = (node.kind == "checkbox") := by
  have hface : dom.isCheckbox (dom.form (dom.faceOf (tagOf node.kind) node)) = (node.kind == "checkbox") := by
    simp only [faceOf]
    split
    · rename_i hkind
      rw [h.isCheckbox_type, hkind]
      · rfl
      · rw [h.tag_write, h.tag_write, h.tag_create, hkind]
        rfl
    · rename_i hkind
      rw [h.form_attribute _ _ _ fun _ => h.governs_kind, h.form_attribute _ _ _ fun _ => h.governs_ref,
        h.isCheckbox_create, beq_eq_false_iff_ne.2 hkind]
  rw [planted]
  split
  · rw [h.isCheckbox_content, hface]
  · exact hface

end Dom.Lawful

namespace Dom

def plainReading : plain.Reading where
  key := id
  reflects := false
  governs name := name == "type"
  textual type := Text.lower type != "checkbox"
  isTextual form := form.type?.any fun type => Text.lower type != "checkbox"
  alone _ _ := true

section Plain

def isPlainCheckbox (form : PlainForm) : Bool := form.type?.any fun type => Text.lower type == "checkbox"

def isPlainText (form : PlainForm) : Bool := form.type?.any fun type => Text.lower type != "checkbox"

def plainForm (form : PlainForm) : Write → PlainForm
  | .attr name text =>
    if name = "type" then { form with type? := form.type?.map fun _ => text.getD "text" } else form
  | .hidden _ | .content _ => form
  | .checked flag => { form with checked := flag }
  | .value text | .entry text => { form with value := text }

theorem form_plain_write (w : Write) (face : PlainFace) : (face.write w).form = plainForm face.form w := by
  cases w with
  | attr name text =>
    by_cases hname : name = "type"
    · by_cases hinput : face.tag = "input" <;>
        cases text <;> simp [PlainFace.write, PlainFace.form, PlainFace.isInput, plainForm, Table.get?_put,
          Table.get?_erase, hname, hinput]
    · have hne : "type" ≠ name := Ne.symm hname
      cases text <;> simp [PlainFace.write, PlainFace.form, PlainFace.isInput, plainForm, Table.get?_put,
        Table.get?_erase, hname, hne]
  | _ => rfl

theorem type_plain_form (face : PlainFace) : face.form.type? =
    if face.tag = "input" then some ((face.attributes.get? "type").getD "text") else none := by
  simp [PlainFace.form, PlainFace.isInput]

theorem plain_form_attr {name : String} (text : Option String) {face : PlainFace}
    (h : face.tag = "input" → (name == "type") = false) : (face.write (.attr name text)).form = face.form := by
  rw [form_plain_write, plainForm]
  split
  · rename_i hname
    have hnone : face.form.type? = none := by
      rw [type_plain_form, if_neg fun htag => by simpa [hname] using h htag]
    rw [hnone, Option.map_none, ← hnone]
  · rfl

theorem isPlainCheckbox_create (tag : String) : isPlainCheckbox (PlainFace.form { tag }) = false := by
  have hlower : (Text.lower "text" == "checkbox") = false := by decide
  rw [isPlainCheckbox, type_plain_form]
  split
  · exact hlower
  · rfl

theorem isPlainCheckbox_type {face : PlainFace} (h : face.tag = "input") :
    isPlainCheckbox (face.write (.attr "type" (some "checkbox"))).form = true := by
  have hlower : (Text.lower "checkbox" == "checkbox") = true := by decide
  rw [isPlainCheckbox, form_plain_write, plainForm, if_pos rfl, type_plain_form, if_pos h]
  exact hlower

theorem tag_of_isPlainCheckbox {face : PlainFace} (h : isPlainCheckbox face.form = true) : face.tag = "input" := by
  rw [isPlainCheckbox, type_plain_form] at h
  split at h
  · assumption
  · cases h

theorem isPlainCheckbox_of_text {form : PlainForm} (h : isPlainText form = true) : isPlainCheckbox form = false := by
  obtain ⟨type, htype, hlower⟩ := (Option.any_eq_true _ _).1 h
  rw [isPlainCheckbox, htype, Option.any_some]
  simpa [bne] using hlower

theorem isPlainText_type {text : Option String} {face : PlainFace}
    (htextual : ∀ type ∈ text, (Text.lower type != "checkbox") = true) (h : isPlainText face.form = true) :
    isPlainText (face.write (.attr "type" text)).form = true := by
  obtain ⟨type, htype, -⟩ := (Option.any_eq_true _ _).1 h
  rw [isPlainText, form_plain_write, plainForm, if_pos rfl, htype, Option.map_some, Option.any_some]
  cases text with
  | none =>
    have hlower : (Text.lower "text" != "checkbox") = true := by decide
    exact hlower
  | some text => exact htextual text rfl

theorem plainForm_attr_attr (name : String) (text other : Option String) (form : PlainForm) :
    plainForm (plainForm form (.attr name other)) (.attr name text) = plainForm form (.attr name text) := by
  by_cases h : name = "type"
  · simp [plainForm, h, Function.comp_def]
  · simp only [plainForm, if_neg h]

theorem lawful_plain : plain.Lawful plainReading where
  tag_create tag := rfl
  tag_write w face := by
    cases w with
    | attr name text => cases text <;> rfl
    | _ => rfl
  attribute?_attribute name text other face _ := by
    cases text with
    | none => exact (Table.get?_erase _ _ _).trans (by simp only [plainReading, id, eq_comm]; rfl)
    | some text => exact (Table.get?_put _ _ _ _).trans (by simp only [plainReading, id, eq_comm]; rfl)
  attribute?_hidden flag other face := rfl
  attribute?_value text other face _ _ := rfl
  attribute?_checked flag other face := rfl
  attribute?_content text other face := rfl
  hidden_hidden flag face := rfl
  hidden_attribute name text face _ := by cases text <;> rfl
  hidden_value text face := rfl
  hidden_checked flag face := rfl
  hidden_content text face := rfl
  form_congr w face other h :=
    (form_plain_write w face).trans ((congrArg (plainForm · w) h).trans (form_plain_write w other).symm)
  form_hidden flag face := rfl
  form_attribute name text face h := plain_form_attr text h
  form_content text face _ := rfl
  form_content_content text other face := rfl
  value_own face := rfl
  value_value text other face := rfl
  checked_value text face := rfl
  isCheckbox_value text face := rfl
  checked_checked flag face := rfl
  value_checked flag face := rfl
  isCheckbox_checked flag face := rfl
  isCheckbox_create := isPlainCheckbox_create
  isCheckbox_type face h := isPlainCheckbox_type h
  tag_of_isCheckbox face h := tag_of_isPlainCheckbox h
  governs_ref := by decide
  governs_kind := by decide
  alone_create name tag := rfl
  alone_type name := rfl
  alone_attribute name text face _ := rfl
  form_attribute_attribute name text other face _ :=
    (form_plain_write _ _).trans ((congrArg (plainForm · _) (form_plain_write _ _)).trans
      ((plainForm_attr_attr name text other face.form).trans (form_plain_write _ _).symm))
  isTextual_create := by decide
  isCheckbox_of_isTextual form h := isPlainCheckbox_of_text h
  isTextual_value text face h := h
  textual_type name text face hkey htextual h := by
    obtain rfl : name = "type" := hkey
    exact ⟨isPlainText_type htextual h, by cases text <;> rfl, by cases text <;> rfl, fun next => rfl⟩

end Plain

section Html

def governingKeys : List String := ["type", "value", "checked"]

def textTypes : List String := ["text", "search", "tel", "password"]

def isHtmlText (form : HtmlForm) : Bool := form.isInput && textTypes.contains form.typeName

/-- Nothing was written to the form of an input but an attribute. -/
def isAlone (name : String) (form : HtmlForm) : Bool :=
  form.entered?.isNone && form.mark?.isNone && (HtmlFace.key name == "value" || form.default?.isNone)

def htmlReading : html.Reading where
  key := HtmlFace.key
  reflects := true
  governs name := governingKeys.contains (HtmlFace.key name)
  textual type := textTypes.contains (type.map Char.toLower)
  isTextual := isHtmlText
  alone := isAlone

def htmlForm (form : HtmlForm) : Write → HtmlForm
  | .attr name text =>
    if form.isInput then
      if HtmlFace.key name = "type" then form.setType text
      else if HtmlFace.key name = "value" then { form with default? := text }
      else if HtmlFace.key name = "checked" then { form with marked? := text }
      else form
    else form
  | .hidden _ => form
  | .checked flag => { form with mark? := some flag }
  | .value text | .entry text => form.setValue text
  | .content text => if form.isTextArea then { form with content := text } else form

theorem form_put (face : HtmlFace) (name : String) (text : Option String) :
    (face.put name text).form = face.form := by
  cases text <;> rfl

theorem form_setAttribute (face : HtmlFace) (name : String) (text : Option String) :
    (face.setAttribute (HtmlFace.key name) text).form = htmlForm face.form (.attr name text) := by
  simp only [HtmlFace.setAttribute, htmlForm]
  split_ifs <;> simp only [form_put]

theorem form_html_write (w : Write) (face : HtmlFace) : (face.write w).form = htmlForm face.form w := by
  cases w with
  | attr name text => exact form_setAttribute face name text
  | hidden flag => exact form_put _ _ _
  | content text =>
    rw [HtmlFace.write, htmlForm]
    split <;> rfl
  | _ => rfl

theorem tag_htmlForm (w : Write) (form : HtmlForm) : (htmlForm form w).tag = form.tag := by
  cases w with
  | attr name text =>
    simp only [htmlForm, HtmlForm.setType]
    split_ifs <;> rfl
  | content text =>
    simp only [htmlForm]
    split_ifs <;> rfl
  | value text =>
    simp only [htmlForm, HtmlForm.setValue]
    split_ifs <;> rfl
  | entry text =>
    simp only [htmlForm, HtmlForm.setValue]
    split_ifs <;> rfl
  | _ => rfl

theorem get?_attributes_put (face : HtmlFace) (name : String) (text : Option String) (other : String) :
    (face.put name text).attributes.get? other = if name = other then text else face.attributes.get? other := by
  cases text with
  | none => exact (Table.get?_erase _ _ _).trans (by simp only [eq_comm])
  | some text => exact (Table.get?_put _ _ _ _).trans (by simp only [eq_comm])

theorem map_toLower_eq {s : String} (h : s.toList.map Char.toLower = s.toList) : s.map Char.toLower = s := by
  rw [← String.toList_inj, String.toList_map, h]

theorem setType_frame (form : HtmlForm) (type? : Option String) :
    (form.setType type?).type? = type? ∧ (form.setType type?).marked? = form.marked? ∧
      (form.setType type?).mark? = form.mark? ∧ (form.setType type?).tag = form.tag := by
  simp only [HtmlForm.setType]
  split_ifs <;> exact ⟨rfl, rfl, rfl, rfl⟩

theorem attribute?_put_hidden (face : HtmlFace) (text : Option String) (name : String) :
    (face.put "hidden" text).attribute? name = if name = "hidden" then text else face.attribute? name := by
  simp only [HtmlFace.attribute?, form_put, get?_attributes_put]
  by_cases hname : name = "hidden"
  · subst hname
    simp
  · simp [hname, Ne.symm hname]

theorem get?_hidden_setAttribute {face : HtmlFace} {name : String} (text : Option String) (h : name ≠ "hidden") :
    (face.setAttribute name text).attributes.get? "hidden" = face.attributes.get? "hidden" := by
  simp only [HtmlFace.setAttribute]
  split_ifs <;> simp [get?_attributes_put, h]

theorem withoutBreaks_withoutBreaks (text : String) :
    HtmlForm.withoutBreaks (HtmlForm.withoutBreaks text) = HtmlForm.withoutBreaks text := by
  simp [HtmlForm.withoutBreaks, List.filter_filter]

theorem return_notMem_unifyBreaks (cs : List Char) : '\r' ∉ HtmlForm.unifyBreaks cs := by
  fun_induction HtmlForm.unifyBreaks cs with
  | case1 => exact List.not_mem_nil
  | case2 rest ih | case3 rest _ ih => simpa using ih
  | case4 c rest _ hc ih => simpa using ⟨fun h => hc h.symm, ih⟩

theorem unifyBreaks_of_notMem {cs : List Char} (h : '\r' ∉ cs) : HtmlForm.unifyBreaks cs = cs := by
  fun_induction HtmlForm.unifyBreaks cs with
  | case1 => rfl
  | case2 rest ih | case3 rest _ ih => exact absurd List.mem_cons_self h
  | case4 c rest _ hc ih => rw [ih fun hrest => h (List.mem_cons_of_mem _ hrest)]

theorem withUnifiedBreaks_withUnifiedBreaks (text : String) :
    HtmlForm.withUnifiedBreaks (HtmlForm.withUnifiedBreaks text) = HtmlForm.withUnifiedBreaks text := by
  rw [HtmlForm.withUnifiedBreaks, HtmlForm.withUnifiedBreaks, String.toList_ofList,
    unifyBreaks_of_notMem (return_notMem_unifyBreaks _)]

theorem mode_setValue (form : HtmlForm) (text : String) : (form.setValue text).mode = form.mode := by
  simp only [HtmlForm.setValue]
  split_ifs <;> rfl

theorem tag_setValue (form : HtmlForm) (text : String) : (form.setValue text).tag = form.tag :=
  tag_htmlForm (.value text) form

theorem value_setValue (form : HtmlForm) (text : String) : (form.setValue text).value =
    if form.isInput then (if form.mode = .field then HtmlForm.withoutBreaks text else text)
    else if form.isTextArea then HtmlForm.withUnifiedBreaks text else "" := by
  have hmode := mode_setValue form text
  have htag := tag_setValue form text
  simp only [HtmlForm.value, HtmlForm.isInput, HtmlForm.isTextArea, htag, hmode]
  simp only [HtmlForm.setValue, HtmlForm.isInput]
  cases hm : form.mode <;> split_ifs <;> simp_all

theorem value_setValue_value (form : HtmlForm) : (form.setValue form.value).value = form.value := by
  rw [value_setValue]
  simp only [HtmlForm.value]
  cases form.mode <;> split_ifs <;> simp_all [withoutBreaks_withoutBreaks, withUnifiedBreaks_withUnifiedBreaks]

theorem value_setValue_setValue (form : HtmlForm) (text other : String) :
    ((form.setValue other).setValue text).value = (form.setValue text).value := by
  rw [value_setValue, value_setValue, mode_setValue, HtmlForm.isInput, HtmlForm.isTextArea, tag_setValue]
  rfl

theorem htmlForm_attr {form : HtmlForm} {name : String} (text : Option String)
    (h : form.isInput → governingKeys.contains (HtmlFace.key name) = false) :
    htmlForm form (.attr name text) = form := by
  rw [htmlForm]
  split
  · rename_i hinput
    have hname := h hinput
    simp only [governingKeys, List.contains_cons, List.contains_nil, Bool.or_false, Bool.or_eq_false_iff,
      beq_eq_false_iff_ne] at hname
    rw [if_neg hname.1, if_neg hname.2.1, if_neg hname.2.2]
  · rfl

theorem mode_of_isHtmlText {form : HtmlForm} (h : textTypes.contains form.typeName = true) : form.mode = .field := by
  simp only [textTypes, List.contains_cons, List.contains_nil, Bool.or_false, Bool.or_eq_true, beq_iff_eq] at h
  rcases h with h | h | h | h <;> simp [HtmlForm.mode, h]

theorem setType_of_isHtmlText {form : HtmlForm} {text : Option String} (h : isHtmlText form = true)
    (htextual : ∀ type ∈ text, textTypes.contains (type.map Char.toLower) = true) :
    form.setType text = { form with type? := text } ∧ isHtmlText { form with type? := text } = true := by
  rw [isHtmlText, Bool.and_eq_true] at h
  have htype : textTypes.contains ({ form with type? := text } : HtmlForm).typeName = true := by
    cases text with
    | none =>
      have hdefault : textTypes.contains ("text".map Char.toLower) = true := by
        rw [map_toLower_eq rfl]
        decide
      exact hdefault
    | some text => exact htextual text rfl
  have hmode := mode_of_isHtmlText h.2
  have hnext := mode_of_isHtmlText htype
  constructor
  · simp only [HtmlForm.setType, hmode, hnext]
    simp
  · rw [isHtmlText, htype, Bool.and_true]
    exact h.1

theorem key_value : HtmlFace.key "value" = "value" := map_toLower_eq rfl

theorem key_hidden : HtmlFace.key "hidden" = "hidden" := map_toLower_eq rfl

theorem key_type : HtmlFace.key "type" = "type" := map_toLower_eq rfl

theorem attribute?_value_setAttribute {name : String} {text : Option String} {face : HtmlFace}
    (hface : isHtmlText face.form = true)
    (htextual : HtmlFace.key name = "type" → ∀ type ∈ text, textTypes.contains (type.map Char.toLower) = true) :
    (face.setAttribute (HtmlFace.key name) text).attribute? "value" =
      if HtmlFace.key name = "value" then text else face.attribute? "value" := by
  have hinput := (Bool.and_eq_true_iff.1 hface).1
  have hlater : (face.setAttribute (HtmlFace.key name) text).form.isInput = true := by
    rw [form_setAttribute, HtmlForm.isInput, tag_htmlForm]
    exact hinput
  have hdefault (other : HtmlFace) (h : other.form.isInput = true) :
      other.attribute? "value" = other.form.default? := by
    simp [HtmlFace.attribute?, h]
  rw [hdefault _ hlater, hdefault _ hinput, form_setAttribute, htmlForm, if_pos hinput]
  by_cases hname : HtmlFace.key name = "type"
  · obtain ⟨hset, -⟩ := setType_of_isHtmlText hface (htextual hname)
    rw [if_pos hname, hset, hname, if_neg (by decide)]
  · rw [if_neg hname]
    split_ifs <;> rfl

theorem attribute?_html_attr {name : String} {text : Option String} {other : String} {face : HtmlFace}
    (h : face.form.tag = "input" → HtmlFace.key other = "value" → isHtmlText face.form = true ∧
      (HtmlFace.key name = "type" → ∀ type ∈ text, textTypes.contains (type.map Char.toLower) = true)) :
    (face.setAttribute (HtmlFace.key name) text).attribute? (HtmlFace.key other) =
      if HtmlFace.key name = HtmlFace.key other then text else face.attribute? (HtmlFace.key other) := by
  by_cases hvalue : face.form.tag = "input" ∧ HtmlFace.key other = "value"
  · obtain ⟨hface, htextual⟩ := h hvalue.1 hvalue.2
    rw [hvalue.2]
    exact attribute?_value_setAttribute hface htextual
  · have hinput : (face.setAttribute (HtmlFace.key name) text).form.isInput = face.form.isInput := by
      rw [form_setAttribute]
      exact congrArg (· == "input") (tag_htmlForm _ _)
    have hother : face.form.isInput = true → HtmlFace.key other ≠ "value" :=
      fun hface he => hvalue ⟨beq_iff_eq.1 hface, he⟩
    rw [HtmlFace.attribute?, hinput]
    generalize HtmlFace.key name = k at *
    generalize HtmlFace.key other = j at *
    obtain ⟨htype, hmarked, -, -⟩ := setType_frame face.form text
    by_cases hface : face.form.isInput
    · have hj := hother hface
      simp only [HtmlFace.setAttribute, HtmlFace.attribute?, hface, if_true]
      split_ifs <;> simp_all [form_put, get?_attributes_put]
    · simp only [HtmlFace.setAttribute, HtmlFace.attribute?, hface]
      exact get?_attributes_put face k text j

theorem attribute?_html_value {text name : String} {face : HtmlFace}
    (h : face.form.tag = "input" → HtmlFace.key name = "value" → isHtmlText face.form = true) :
    (face.write (.value text)).attribute? (HtmlFace.key name) = face.attribute? (HtmlFace.key name) := by
  have htag : (face.write (.value text)).form.isInput = face.form.isInput :=
    congrArg (· == "input") (tag_setValue face.form text)
  rw [HtmlFace.attribute?, HtmlFace.attribute?, htag]
  by_cases hname : face.form.isInput = true ∧ HtmlFace.key name = "value"
  · have hmode := mode_of_isHtmlText (Bool.and_eq_true_iff.1 (h (beq_iff_eq.1 hname.1) hname.2)).2
    simp [HtmlFace.write, HtmlForm.setValue, hmode, hname.1, hname.2]
  · by_cases hface : face.form.isInput = true
    · rw [if_neg fun he => hname ⟨hface, he⟩, if_neg fun he => hname ⟨hface, he⟩]
      simp only [HtmlFace.write, HtmlForm.setValue]
      split_ifs <;> rfl
    · simp only [hface]
      rfl

theorem attribute?_html_content (text name : String) (face : HtmlFace) :
    (face.write (.content text)).attribute? name = face.attribute? name := by
  rw [HtmlFace.write]
  split <;> rfl

theorem hidden_html_hidden (flag : Bool) (face : HtmlFace) :
    ((face.write (.hidden flag)).attributes.get? "hidden").isSome = flag := by
  rw [HtmlFace.write, get?_attributes_put, if_pos rfl]
  cases flag <;> rfl

theorem hidden_html_content (text : String) (face : HtmlFace) :
    (face.write (.content text)).attributes = face.attributes := by
  rw [HtmlFace.write]
  split <;> rfl

theorem htmlForm_content {form : HtmlForm} (text : String) (h : form.tag ≠ "textarea") :
    htmlForm form (.content text) = form := by
  rw [htmlForm, if_neg]
  rw [HtmlForm.isTextArea, beq_iff_eq]
  exact h

theorem htmlForm_content_content (form : HtmlForm) (text other : String) :
    htmlForm (htmlForm form (.content other)) (.content text) = htmlForm form (.content text) := by
  by_cases h : form.isTextArea
  · have hlater : ({ form with content := other } : HtmlForm).isTextArea = true := h
    simp only [htmlForm, h, hlater, if_true]
  · have hother (text : String) : htmlForm form (.content text) = form := if_neg h
    rw [hother, hother]

theorem checked_setValue (form : HtmlForm) (text : String) : (form.setValue text).checked = form.checked := by
  rw [HtmlForm.setValue]
  split_ifs <;> rfl

theorem typeName_setValue (form : HtmlForm) (text : String) : (form.setValue text).typeName = form.typeName := by
  rw [HtmlForm.setValue]
  split_ifs <;> rfl

theorem isCheckbox_setValue (form : HtmlForm) (text : String) :
    (form.setValue text).isCheckbox = form.isCheckbox := by
  rw [HtmlForm.isCheckbox, HtmlForm.isCheckbox, typeName_setValue, HtmlForm.isInput, tag_setValue, HtmlForm.isInput]

theorem isHtmlText_setValue (form : HtmlForm) (text : String) :
    isHtmlText (form.setValue text) = isHtmlText form := by
  rw [isHtmlText, isHtmlText, typeName_setValue, HtmlForm.isInput, tag_setValue, HtmlForm.isInput]

theorem isCheckbox_html_create (tag : String) : HtmlForm.isCheckbox { tag } = false := by
  have hlower : ("text".map Char.toLower == "checkbox") = false := by
    rw [map_toLower_eq rfl]
    decide
  rw [HtmlForm.isCheckbox, HtmlForm.typeName, Option.getD_none, hlower, Bool.and_false]

theorem isCheckbox_html_type {form : HtmlForm} (h : form.tag = "input") :
    (htmlForm form (.attr "type" (some "checkbox"))).isCheckbox = true := by
  have hlower : ("checkbox".map Char.toLower == "checkbox") = true := by
    rw [map_toLower_eq rfl]
    decide
  have hinput : form.isInput = true := beq_iff_eq.2 h
  obtain ⟨htype, -, -, htag⟩ := setType_frame form (some "checkbox")
  rw [htmlForm, if_pos hinput, if_pos key_type, HtmlForm.isCheckbox, HtmlForm.typeName, htype, HtmlForm.isInput, htag,
    h, Option.getD_some, hlower]
  rfl

theorem isCheckbox_of_isHtmlText {form : HtmlForm} (h : isHtmlText form = true) : form.isCheckbox = false := by
  rw [isHtmlText, Bool.and_eq_true] at h
  have hne : (form.typeName == "checkbox") = false := by
    refine beq_eq_false_iff_ne.2 fun he => ?_
    rw [he] at h
    exact absurd h.2 (by decide)
  rw [HtmlForm.isCheckbox, hne, Bool.and_false]

theorem value_type {form : HtmlForm} {text : Option String} (h : isHtmlText form = true)
    (hnext : isHtmlText { form with type? := text } = true) :
    HtmlForm.value { form with type? := text } = form.value := by
  rw [isHtmlText, Bool.and_eq_true] at h hnext
  have hinput : ({ form with type? := text } : HtmlForm).isInput = true := hnext.1
  rw [HtmlForm.value, HtmlForm.value, if_pos hinput, if_pos h.1, mode_of_isHtmlText h.2,
    mode_of_isHtmlText hnext.2]

theorem value_type_setValue {form : HtmlForm} {text : Option String} (h : isHtmlText form = true)
    (hnext : isHtmlText { form with type? := text } = true) (next : String) :
    (HtmlForm.setValue { form with type? := text } next).value = (form.setValue next).value := by
  rw [isHtmlText, Bool.and_eq_true] at h hnext
  rw [value_setValue, value_setValue, if_pos hnext.1, if_pos h.1, mode_of_isHtmlText h.2, mode_of_isHtmlText hnext.2]

theorem textual_html_type {name : String} {text : Option String} {form : HtmlForm}
    (hname : HtmlFace.key name = "type")
    (htextual : ∀ type ∈ text, textTypes.contains (type.map Char.toLower) = true) (h : isHtmlText form = true) :
    isHtmlText (htmlForm form (.attr name text)) = true ∧
      (htmlForm form (.attr name text)).checked = form.checked ∧
      (htmlForm form (.attr name text)).value = form.value ∧
      ∀ next, ((htmlForm form (.attr name text)).setValue next).value = (form.setValue next).value := by
  obtain ⟨hset, hnext⟩ := setType_of_isHtmlText h htextual
  have hform : htmlForm form (.attr name text) = { form with type? := text } := by
    rw [htmlForm, if_pos (Bool.and_eq_true_iff.1 h).1, if_pos hname, hset]
  rw [hform]
  exact ⟨hnext, rfl, value_type h hnext, value_type_setValue h hnext⟩

theorem form_html_content_content (text other : String) (face : HtmlFace) :
    ((face.write (.content other)).write (.content text)).form = (face.write (.content text)).form := by
  rw [form_html_write, form_html_write, form_html_write, htmlForm_content_content]

theorem form_html_value (text : String) (face : HtmlFace) :
    (face.write (.value text)).form = face.form.setValue text := rfl

theorem value_html_value (text other : String) (face : HtmlFace) :
    ((face.write (.value other)).write (.value text)).form.value = (face.write (.value text)).form.value := by
  rw [form_html_value, form_html_value, form_html_value, value_setValue_setValue]

theorem attribute?_html_hidden (flag : Bool) (name : String) (face : HtmlFace) :
    (face.write (.hidden flag)).attribute? (HtmlFace.key name) =
      if true = true ∧ HtmlFace.key name = HtmlFace.key "hidden" then (if flag then some "" else none)
      else face.attribute? (HtmlFace.key name) := by
  rw [HtmlFace.write, attribute?_put_hidden, key_hidden]
  simp

theorem textual_html_face {name : String} {text : Option String} {face : HtmlFace}
    (hname : HtmlFace.key name = "type")
    (htextual : ∀ type ∈ text, textTypes.contains (type.map Char.toLower) = true)
    (h : isHtmlText face.form = true) :
    isHtmlText (face.write (.attr name text)).form = true ∧
      (face.write (.attr name text)).form.checked = face.form.checked ∧
      (face.write (.attr name text)).form.value = face.form.value ∧
      ∀ next, ((face.write (.attr name text)).write (.value next)).form.value =
        (face.write (.value next)).form.value := by
  obtain ⟨hlater, hchecked, hvalue, hnext⟩ := textual_html_type hname htextual h
  rw [form_html_write]
  refine ⟨hlater, hchecked, hvalue, fun next => ?_⟩
  rw [form_html_value, form_html_value, form_html_write]
  exact hnext next

theorem isAlone_iff {name : String} {form : HtmlForm} : isAlone name form = true ↔
    form.entered? = none ∧ form.mark? = none ∧ (HtmlFace.key name ≠ "value" → form.default? = none) := by
  simp only [isAlone, Bool.and_eq_true, Option.isNone_iff_eq_none, Bool.or_eq_true, beq_iff_eq, and_assoc,
    Decidable.or_iff_not_imp_left]

theorem setType_of_isAlone {name : String} {form : HtmlForm} (h : isAlone name form = true)
    (hinput : form.isInput = true) (hname : HtmlFace.key name ≠ "value") (text : Option String) :
    form.setType text = { form with type? := text } := by
  obtain ⟨hentered, -, hdefault⟩ := isAlone_iff.1 h
  have hnone := hdefault hname
  have hvalue (hfield : form.mode = .field) : form.value = "" := by
    rw [HtmlForm.value, if_pos hinput, hfield, hentered, hnone]
    rfl
  rw [HtmlForm.setType]
  dsimp only
  split_ifs with hleaves hempty hcomes
  · rw [← hentered]
  · exact absurd (hvalue hleaves.1) hempty
  · rw [← hentered]
  · rfl

theorem alone_htmlForm {name : String} {text : Option String} {form : HtmlForm} (h : isAlone name form = true) :
    isAlone name (htmlForm form (.attr name text)) = true := by
  obtain ⟨hentered, hmark, hdefault⟩ := isAlone_iff.1 h
  rw [htmlForm]
  split_ifs with hinput htype hvalue hchecked
  · have hname : HtmlFace.key name ≠ "value" := by rw [htype]; decide
    rw [setType_of_isAlone h hinput hname]
    exact isAlone_iff.2 ⟨hentered, hmark, hdefault⟩
  · exact isAlone_iff.2 ⟨hentered, hmark, fun hne => absurd hvalue hne⟩
  · exact isAlone_iff.2 ⟨hentered, hmark, hdefault⟩
  · exact h
  · exact h

theorem htmlForm_attr_attr {name : String} {text other : Option String} {form : HtmlForm}
    (h : isAlone name form = true) :
    htmlForm (htmlForm form (.attr name other)) (.attr name text) = htmlForm form (.attr name text) := by
  have hlater : (htmlForm form (.attr name other)).isInput = form.isInput :=
    congrArg (· == "input") (tag_htmlForm (.attr name other) form)
  have halone : isAlone name (htmlForm form (.attr name other)) = true := alone_htmlForm h
  rw [htmlForm, hlater]
  by_cases hinput : form.isInput = true
  · by_cases htype : HtmlFace.key name = "type"
    · have hname : HtmlFace.key name ≠ "value" := by rw [htype]; decide
      rw [if_pos hinput, if_pos htype, setType_of_isAlone halone (hlater.trans hinput) hname]
      simp only [htmlForm, if_pos hinput, if_pos htype, setType_of_isAlone h hinput hname]
    · simp only [htmlForm, if_pos hinput, if_neg htype]
      split_ifs <;> rfl
  · simp only [htmlForm, if_neg hinput]

theorem alone_html_create (name tag : String) : isAlone name { tag } = true :=
  isAlone_iff.2 ⟨rfl, rfl, fun _ => rfl⟩

theorem alone_html_type (name : String) :
    isAlone name (htmlForm { tag := "input" } (.attr "type" (some "checkbox"))) = true := by
  have hcreate := alone_html_create "type" "input"
  have hname : HtmlFace.key "type" ≠ "value" := by rw [key_type]; decide
  rw [htmlForm, if_pos (by rfl), if_pos key_type, setType_of_isAlone hcreate rfl hname]
  exact isAlone_iff.2 ⟨rfl, rfl, fun _ => rfl⟩

theorem alone_html_write {name : String} {text : Option String} {face : HtmlFace}
    (h : isAlone name face.form = true) : isAlone name (face.write (.attr name text)).form = true := by
  rw [form_html_write]
  exact alone_htmlForm h

theorem form_html_attr_attr {name : String} {text other : Option String} {face : HtmlFace}
    (h : isAlone name face.form = true) :
    ((face.write (.attr name other)).write (.attr name text)).form = (face.write (.attr name text)).form := by
  rw [form_html_write, form_html_write, form_html_write, htmlForm_attr_attr h]

theorem lawful_html : html.Lawful htmlReading where
  tag_create tag := rfl
  tag_write w face := (congrArg HtmlForm.tag (form_html_write w face)).trans (tag_htmlForm w _)
  attribute?_attribute name text other face h := by
    dsimp only [html, htmlReading] at h ⊢
    rw [key_value, key_type] at h
    exact attribute?_html_attr h
  attribute?_hidden := attribute?_html_hidden
  attribute?_value text other face _ h := by
    dsimp only [html, htmlReading] at h ⊢
    rw [key_value] at h
    exact attribute?_html_value h
  attribute?_checked flag other face := rfl
  attribute?_content text other face := attribute?_html_content text _ face
  hidden_hidden := hidden_html_hidden
  hidden_attribute name text face h :=
    congrArg Option.isSome (get?_hidden_setAttribute text (key_hidden ▸ h rfl))
  hidden_value text face := rfl
  hidden_checked flag face := rfl
  hidden_content text face :=
    congrArg (fun table => (Table.get? table "hidden").isSome) (hidden_html_content text face)
  form_congr w face other h :=
    (form_html_write w face).trans ((congrArg (htmlForm · w) h).trans (form_html_write w other).symm)
  form_hidden flag face := form_put _ _ _
  form_attribute name text face h :=
    (form_html_write _ face).trans (htmlForm_attr text fun hinput => h (beq_iff_eq.1 hinput))
  form_content text face h := (form_html_write _ face).trans (htmlForm_content text h)
  form_content_content text other face := by
    dsimp only [html]
    exact form_html_content_content text other face
  value_own face := by
    dsimp only [html]
    exact value_setValue_value face.form
  value_value text other face := by
    dsimp only [html]
    exact value_html_value text other face
  checked_value text face := checked_setValue face.form text
  isCheckbox_value text face := isCheckbox_setValue face.form text
  checked_checked flag face := rfl
  value_checked flag face := rfl
  isCheckbox_checked flag face := rfl
  isCheckbox_create := isCheckbox_html_create
  isCheckbox_type face h := (congrArg HtmlForm.isCheckbox (form_html_write _ face)).trans (isCheckbox_html_type h)
  tag_of_isCheckbox face h := beq_iff_eq.1 (Bool.and_eq_true_iff.1 h).1
  governs_ref := by decide +kernel
  governs_kind := by decide +kernel
  alone_create name tag := alone_html_create name tag
  alone_type name := (congrArg (isAlone name) (form_html_write _ _)).trans (alone_html_type name)
  alone_attribute name text face h := alone_html_write h
  form_attribute_attribute name text other face h := form_html_attr_attr h
  isTextual_create := by decide +kernel
  isCheckbox_of_isTextual form h := isCheckbox_of_isHtmlText h
  isTextual_value text face h := (isHtmlText_setValue face.form text).trans h
  textual_type name text face hkey htextual h := by
    dsimp only [html, htmlReading] at hkey htextual h ⊢
    exact textual_html_face (key_type ▸ hkey) htextual h

end Html

end Dom

end ReactiveView
