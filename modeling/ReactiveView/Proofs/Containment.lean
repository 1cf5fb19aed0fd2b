import Mathlib.Data.List.Basic
import ReactiveView.Proofs.Paths
import ReactiveView.Sandbox.Source

namespace ReactiveView

namespace Guard

/-- The text of a request passes: it holds no character of code zero, names a source document and goes up nowhere,
with either kind of slash. -/
structure Admissible (requested : String) : Prop where
  no_nul : ∀ c ∈ requested.toList, c.toNat ≠ 0
  extension : Path.hasSourceExtension requested = true
  no_dots : "..".toList ∉ requested.toList.splitOnP Path.isSlash

theorem textFault?_eq_none_iff {requested : String} : textFault? requested = none ↔ Admissible requested := by
  have hnul : Path.hasNul requested = false ↔ ∀ c ∈ requested.toList, c.toNat ≠ 0 := by
    simp [Path.hasNul]
  have hparts : Admissible requested ↔ Path.hasNul requested = false ∧
      Path.hasSourceExtension requested = true ∧ Path.hasTraversal requested = false := by
    rw [hnul, Path.hasTraversal_eq_false_iff]
    exact ⟨fun h => ⟨h.no_nul, h.extension, h.no_dots⟩, fun h => ⟨h.1, h.2.1, h.2.2⟩⟩
  rw [hparts, textFault?]
  cases Path.hasNul requested <;> cases Path.hasSourceExtension requested <;>
    cases Path.hasTraversal requested <;> simp

/-- A path leads from a root through names that entries can have, at least one, and the last of them is that of a
source document. -/
def LeadsBelow (root target : Path) : Prop :=
  ∃ front stem, stem ≠ "" ∧ (∀ name ∈ front ++ [stem ++ sourceExtension], Path.IsName name) ∧
    target = root ++ (front ++ [stem ++ sourceExtension])

theorem leadsBelow_of_isInside {requested : String} (h : Admissible requested) {base : Path}
    (hinside : Path.isInside base (Path.resolve base requested) = true) :
    LeadsBelow base (Path.resolve base requested) := by
  have hdots := Path.dots_notMem_segments h.no_dots
  have hresolve := Path.resolve_eq hdots base
  obtain ⟨stem, hstem, hname⟩ := Path.exists_stem_of_hasSourceExtension h.extension
  obtain ⟨first, rest, htarget, -⟩ := Path.isInside_iff.1 hinside
  have htrail : ∀ name ∈ first :: rest, name ∈ Path.trail requested := by
    rw [hresolve] at htarget
    split at htarget
    · rw [List.nil_append] at htarget
      intro name hmem
      rw [htarget]
      exact List.mem_append_right _ hmem
    · rw [List.append_cancel_left htarget]
      exact fun name hmem => hmem
  have hlast : (first :: rest).getLast? = some (stem ++ sourceExtension) := by
    have htargetLast : (Path.resolve base requested).getLast? = some (stem ++ sourceExtension) := by
      rw [hresolve, List.getLast?_append, Path.getLast?_trail h.extension, hname]
      rfl
    rw [← htargetLast, htarget, List.getLast?_append, List.getLast?_cons]
    rfl
  obtain ⟨front, hfront⟩ := List.getLast?_eq_some_iff.1 hlast
  refine ⟨front, stem, hstem, fun name hmem => ?_, hfront ▸ htarget⟩
  exact Path.isName_of_mem_trail hdots (htrail name (hfront ▸ hmem))

def StaysBelow (fs : FileSystem) (root target : Path) : Prop :=
  (fs.content? target).isSome = true → ∃ realRoot names, names ≠ [] ∧ fs.realPath root = .ok realRoot ∧
    fs.realPath target = .ok (realRoot ++ names)

theorem linksStayInside_of_absent {fs : FileSystem} {root target : Path}
    (h : (fs.content? target).isSome = false) : linksStayInside fs root target = .ok true := by
  rw [Option.isSome_eq_false_iff] at h
  rw [linksStayInside, if_pos h]

theorem linksStayInside_of_exists {fs : FileSystem} {root target : Path}
    (h : (fs.content? target).isSome = true) :
    linksStayInside fs root target =
      return Path.isInside (← fs.realPath root) (← fs.realPath target) := by
  rw [linksStayInside, ← Option.not_isSome, h, if_neg (by decide)]

theorem linksStayInside_cases (fs : FileSystem) (root target : Path) :
    (∃ cause, linksStayInside fs root target = .error cause ∧ (fs.content? target).isSome = true ∧
      (fs.realPath root = .error cause ∨ fs.realPath target = .error cause)) ∨
    linksStayInside fs root target = .ok false ∨
    linksStayInside fs root target = .ok true ∧ StaysBelow fs root target := by
  cases hexists : (fs.content? target).isSome with
  | false =>
    refine Or.inr (Or.inr ⟨linksStayInside_of_absent hexists, fun h => ?_⟩)
    rw [hexists] at h
    cases h
  | true =>
    rw [linksStayInside_of_exists hexists]
    cases hroot : fs.realPath root with
    | error cause => exact Or.inl ⟨cause, rfl, rfl, Or.inl rfl⟩
    | ok realRoot =>
      cases htarget : fs.realPath target with
      | error cause => exact Or.inl ⟨cause, rfl, rfl, Or.inr rfl⟩
      | ok realTarget =>
        cases hinside : Path.isInside realRoot realTarget with
        | false => exact Or.inr (Or.inl (congrArg Except.ok hinside))
        | true =>
          obtain ⟨name, rest, hbelow, -⟩ := Path.isInside_iff.1 hinside
          refine Or.inr (Or.inr ⟨congrArg Except.ok hinside, fun _ => ?_⟩)
          exact ⟨realRoot, name :: rest, List.cons_ne_nil name rest, hroot, by rw [htarget, hbelow]⟩

theorem validate_of_textFault (fs : FileSystem) (directory : Path) {requested : String} (root : String)
    {fault : PathFault} (h : textFault? requested = some fault) :
    validate fs directory requested root = .error (.sandbox (.pathRejected requested fault)) := by
  rw [validate, h]

theorem validate_of_outside (fs : FileSystem) {directory : Path} {requested root : String}
    (h : Admissible requested)
    (houtside : Path.isInside (Path.resolve directory root)
      (Path.resolve (Path.resolve directory root) requested) = false) :
    validate fs directory requested root = .error (.sandbox (.pathRejected requested .outsideRoot)) := by
  rw [validate, textFault?_eq_none_iff.2 h]
  simp [houtside]

theorem validate_of_inside (fs : FileSystem) {directory : Path} {requested root : String}
    (h : Admissible requested)
    (hinside : Path.isInside (Path.resolve directory root)
      (Path.resolve (Path.resolve directory root) requested) = true) :
    validate fs directory requested root =
      match linksStayInside fs (Path.resolve directory root)
        (Path.resolve (Path.resolve directory root) requested) with
      | .error cause => .error (.defect (.lookup cause))
      | .ok false => .error (.sandbox (.pathRejected requested .outsideRoot))
      | .ok true => .ok (Path.resolve (Path.resolve directory root) requested) := by
  rw [validate, textFault?_eq_none_iff.2 h]
  exact if_neg (by rw [hinside]; exact Bool.false_ne_true)

/-- The same paths exist, with the same real paths; what files hold may differ. -/
def SameLayout (fs other : FileSystem) : Prop :=
  (∀ path, (fs.content? path).isSome = (other.content? path).isSome) ∧ fs.realPath = other.realPath

theorem validate_congr {fs other : FileSystem} (h : SameLayout fs other) (directory : Path)
    (requested root : String) :
    validate fs directory requested root = validate other directory requested root := by
  have hlinks (base target : Path) : linksStayInside fs base target = linksStayInside other base target := by
    rw [linksStayInside, linksStayInside, h.2, ← Option.not_isSome, ← Option.not_isSome, h.1]
  simp only [validate, hlinks]

end Guard

theorem Source.load_of_error {fs other : FileSystem} {directory : Path} {requested root : String}
    {failure : Failure} (h : Guard.validate fs directory requested root = .error failure)
    (hsame : Guard.SameLayout fs other) {α : Type} (limit : Limit) (parser : Source → Except ParserFault α) :
    Source.load other directory requested root limit parser = .error failure := by
  rw [load, fetch, ← Guard.validate_congr hsame directory requested root, h]

namespace Guard

/-- A request ends in one of two ways. Its path is returned: then its text holds no character of code zero and no two
dots between slashes of either kind, the path leads through names from the root to a source document below it, and if
it exists, so does its real path from that of the root. Or it fails, and nothing is read or parsed: then the path is
rejected, or it exists and the file system has an error in place of its real path or of that of the root. -/
theorem validate_contains (fs : FileSystem) (directory : Path) (requested root : String) :
    let base := Path.resolve directory root
    let target := Path.resolve base requested
    (validate fs directory requested root = .ok target ∧ (∀ c ∈ requested.toList, c.toNat ≠ 0) ∧
      "..".toList ∉ requested.toList.splitOnP Path.isSlash ∧ LeadsBelow base target ∧
      StaysBelow fs base target) ∨
    ∃ failure, validate fs directory requested root = .error failure ∧
      ((∃ fault, failure = .sandbox (.pathRejected requested fault)) ∨
        ∃ cause, failure = .defect (.lookup cause) ∧ (fs.content? target).isSome = true ∧
          (fs.realPath base = .error cause ∨ fs.realPath target = .error cause)) ∧
      ∀ other, SameLayout fs other → ∀ (α : Type) (limit : Limit) (parser : Source → Except ParserFault α),
        Source.load other directory requested root limit parser = .error failure := by
  intro base target
  have hfails {failure : Failure} (h : validate fs directory requested root = .error failure) :
      ∀ other, SameLayout fs other → ∀ (α : Type) (limit : Limit) (parser : Source → Except ParserFault α),
        Source.load other directory requested root limit parser = .error failure :=
    fun other hsame α limit parser => Source.load_of_error h hsame limit parser
  cases htext : textFault? requested with
  | some fault =>
    have hrejected := validate_of_textFault fs directory root htext
    exact Or.inr ⟨_, hrejected, Or.inl ⟨fault, rfl⟩, hfails hrejected⟩
  | none =>
    have h := textFault?_eq_none_iff.1 htext
    cases hinside : Path.isInside base target with
    | false =>
      have hrejected := validate_of_outside fs h hinside
      exact Or.inr ⟨_, hrejected, Or.inl ⟨.outsideRoot, rfl⟩, hfails hrejected⟩
    | true =>
      have hvalidate := validate_of_inside fs h hinside
      obtain ⟨cause, hlinks, hexists, hcause⟩ | hlinks | ⟨hlinks, hstays⟩ :=
        linksStayInside_cases fs base target
      · rw [hlinks] at hvalidate
        exact Or.inr ⟨_, hvalidate, Or.inr ⟨cause, rfl, hexists, hcause⟩, hfails hvalidate⟩
      · rw [hlinks] at hvalidate
        exact Or.inr ⟨_, hvalidate, Or.inl ⟨.outsideRoot, rfl⟩, hfails hvalidate⟩
      · rw [hlinks] at hvalidate
        exact Or.inl ⟨hvalidate, h.no_nul, h.no_dots, leadsBelow_of_isInside h hinside, hstays⟩

/-- A request whose text passes and whose path lies below the root, as its real path does below that of the root if it
exists, is granted just if neither the first name below the root nor the first name below the real root starts with two
dots. All other names do not matter. A request that is not granted is said to lead outside the root. -/
theorem validate_eq_ok_iff {fs : FileSystem} {directory : Path} {requested root : String}
    (h : Admissible requested) {name : String} {rest : Path}
    (hbelow : Path.resolve (Path.resolve directory root) requested =
      Path.resolve directory root ++ name :: rest)
    {realName : String}
    (hreal : (fs.content? (Path.resolve (Path.resolve directory root) requested)).isSome = true →
      ∃ realRoot realRest, fs.realPath (Path.resolve directory root) = .ok realRoot ∧
        fs.realPath (Path.resolve (Path.resolve directory root) requested) =
          .ok (realRoot ++ realName :: realRest)) :
    let target := Path.resolve (Path.resolve directory root) requested
    let dotted := Path.startsWithDots name = true ∨
      (fs.content? target).isSome = true ∧ Path.startsWithDots realName = true
    (validate fs directory requested root = .ok target ↔ ¬dotted) ∧
      (dotted → validate fs directory requested root =
        .error (.sandbox (.pathRejected requested .outsideRoot))) := by
  intro target dotted
  have hinside : Path.isInside (Path.resolve directory root) target = !Path.startsWithDots name := by
    rw [← Path.isInside_append, ← hbelow]
  -- The two dots are looked for first in the path as text, then in the real path if there is one.
  have houtcome :
      dotted ∧ validate fs directory requested root =
        .error (.sandbox (.pathRejected requested .outsideRoot)) ∨
      ¬dotted ∧ validate fs directory requested root = .ok target := by
    cases hname : Path.startsWithDots name with
    | true =>
      rw [hname] at hinside
      exact Or.inl ⟨Or.inl hname, validate_of_outside fs h hinside⟩
    | false =>
      rw [hname] at hinside
      have hvalidate := validate_of_inside fs h hinside
      cases hexists : (fs.content? target).isSome with
      | false =>
        have hfree : ¬dotted := by simp [dotted, hname, hexists]
        rw [linksStayInside_of_absent hexists] at hvalidate
        exact Or.inr ⟨hfree, hvalidate⟩
      | true =>
        obtain ⟨realRoot, realRest, hroot, htarget⟩ := hreal hexists
        have hlinks : linksStayInside fs (Path.resolve directory root) target =
            .ok (!Path.startsWithDots realName) := by
          rw [linksStayInside_of_exists hexists, hroot, htarget, ← Path.isInside_append]
          rfl
        rw [hlinks] at hvalidate
        cases hrealName : Path.startsWithDots realName with
        | true =>
          rw [hrealName] at hvalidate
          exact Or.inl ⟨Or.inr ⟨hexists, hrealName⟩, hvalidate⟩
        | false =>
          have hfree : ¬dotted := by simp [dotted, hname, hrealName]
          rw [hrealName] at hvalidate
          exact Or.inr ⟨hfree, hvalidate⟩
  cases houtcome with
  | inl hrefused =>
    refine ⟨iff_of_false ?_ (not_not_intro hrefused.1), fun _ => hrefused.2⟩
    rw [hrefused.2]
    exact fun hok => nomatch hok
  | inr hgranted => exact ⟨iff_of_true hgranted.2 hgranted.1, fun hdotted => absurd hdotted hgranted.1⟩

end Guard

/-- Files of an application that shares its parts and a page with others. The page of the application is a link that
goes up from the shared parts. -/
def sharedPages : FileTree where
  entries := [(["shared"], .directory), (["shared", "parts"], .directory), (["shared", "page.prism"], .file []),
    (["app"], .directory), (["app", "parts"], .link "../shared/parts"),
    (["app", "main.prism"], .link "parts/../page.prism"), (["app", "views"], .directory),
    (["app", "views", "..draft.prism"], .file [])]

structure FileTree.SharesPages (tree : FileTree) : Prop where
  entries : ∀ path ∈ [["shared"], ["shared", "parts"], ["shared", "page.prism"], ["app"], ["app", "parts"],
    ["app", "main.prism"]], tree.entry? path = sharedPages.entry? path
  root : tree.firstLink [] ["app"] = .ok none
  page : tree.firstLink [] ["app", "main.prism"] =
    .ok (some ⟨["app", "main.prism"], "parts/../page.prism", []⟩)

namespace FileTree.SharesPages

variable {tree : FileTree}

theorem openPath_main (h : tree.SharesPages) :
    tree.openPath ["app", "main.prism"] = .ok ["shared", "page.prism"] := by
  have hentries := h.entries
  simp only [List.forall_mem_cons] at hentries
  obtain ⟨hshared, hparts, hpage, happ, hlink, hmain, -⟩ := hentries
  calc tree.openPath ["app", "main.prism"]
    _ = tree.walk 40 [] ["app", "main.prism"] := if_neg (by decide)
    _ = tree.walk 40 ["app"] ["main.prism"] := walk_directory (by decide) happ 40 _
    _ = tree.walk 39 ["app"] ["parts", "..", "page.prism"] :=
      walk_link "parts/../page.prism" (by decide) hmain rfl 39 []
    _ = tree.walk 38 ["app"] ["..", "shared", "parts", "..", "page.prism"] :=
      walk_link "../shared/parts" (by decide) hlink rfl 38 _
    _ = tree.walk 38 [] ["shared", "parts", "..", "page.prism"] := walk_up tree 38 ["app"] _
    _ = tree.walk 38 ["shared"] ["parts", "..", "page.prism"] := walk_directory (by decide) hshared 38 _
    _ = tree.walk 38 ["shared", "parts"] ["..", "page.prism"] := walk_directory (by decide) hparts 38 _
    _ = tree.walk 38 ["shared"] ["page.prism"] := walk_up tree 38 ["shared", "parts"] _
    _ = .ok ["shared", "page.prism"] := walk_file (by decide) hpage 38

/-- The search for the real path of the page puts the text of its target in its place, and so the guard looks at
another page, beside it. -/
theorem validate_main (h : tree.SharesPages) :
    Guard.validate tree.fileSystem [] "main.prism" "/app" =
      match tree.expandLinks 999 ["app", "page.prism"] with
      | .error cause => .error (.defect (.lookup cause))
      | .ok real =>
        if Path.isInside ["app"] real then .ok ["app", "main.prism"]
        else .error (.sandbox (.pathRejected "main.prism" .outsideRoot)) := by
  have hexists : (tree.fileSystem.content? ["app", "main.prism"]).isSome = true := by
    have hpage : tree.entry? ["shared", "page.prism"] = some (.file []) := h.entries _ (by decide)
    change (tree.content? ["app", "main.prism"]).isSome = true
    rw [content?, h.openPath_main]
    simp only [hpage, Option.isSome_some]
  have hroot : tree.fileSystem.realPath ["app"] = .ok ["app"] := realPath_of_none h.root
  have hmain : tree.fileSystem.realPath ["app", "main.prism"] = tree.expandLinks 999 ["app", "page.prism"] :=
    expandLinks_of_link h.page h.openPath_main 999
  have hbase : Path.resolve [] "/app" = ["app"] := by decide
  have htarget : Path.resolve ["app"] "main.prism" = ["app", "main.prism"] := by decide
  rw [Guard.validate_of_inside _ (Guard.textFault?_eq_none_iff.1 (by decide)) (by decide), hbase, htarget,
    Guard.linksStayInside_of_exists hexists, hroot, hmain]
  cases tree.expandLinks 999 ["app", "page.prism"] with
  | error cause => rfl
  | ok real =>
    simp only [bind, Except.bind, pure, Except.pure]
    cases Path.isInside ["app"] real with
    | false => rfl
    | true => rfl

end FileTree.SharesPages

/-- The page exists, outside the root, but the search for its real path looks for a page of that name inside the root.
There is none, and the request is not rejected: it fails with the error of the search. Once there is such a page, the
request passes, and the page outside the root is what it opens. -/
theorem sharedPage_not_rejected :
    let decoy := sharedPages.put ["app", "page.prism"] (.file [])
    sharedPages.openPath ["app", "main.prism"] = .ok ["shared", "page.prism"] ∧
      Guard.validate sharedPages.fileSystem [] "main.prism" "/app" =
        .error (.defect (.lookup ⟨.missing, .entry, ["app", "page.prism"]⟩)) ∧
      decoy.openPath ["app", "main.prism"] = .ok ["shared", "page.prism"] ∧
      Guard.validate decoy.fileSystem [] "main.prism" "/app" = .ok ["app", "main.prism"] := by
  intro decoy
  have hshared : sharedPages.SharesPages := ⟨fun _ _ => rfl, by decide, by decide⟩
  have hdecoy : decoy.SharesPages := ⟨by decide, by decide, by decide⟩
  have hmissing : sharedPages.expandLinks 999 ["app", "page.prism"] =
      .error ⟨.missing, .entry, ["app", "page.prism"]⟩ := FileTree.expandLinks_of_error (by decide) 998
  have hfound : decoy.expandLinks 999 ["app", "page.prism"] = .ok ["app", "page.prism"] :=
    FileTree.expandLinks_of_none (by decide) 998
  refine ⟨hshared.openPath_main, ?_, hdecoy.openPath_main, ?_⟩
  · rw [hshared.validate_main, hmissing]
  · rw [hdecoy.validate_main, hfound]
    rfl

theorem content?_draft :
    sharedPages.fileSystem.content? ["app", "views", "..draft.prism"] = some (.file []) := by
  have hentry : sharedPages.entry? ["app", "views", "..draft.prism"] = some (.file []) := by decide
  have hopen : sharedPages.openPath ["app", "views", "..draft.prism"] = .ok ["app", "views", "..draft.prism"] :=
    calc sharedPages.openPath ["app", "views", "..draft.prism"]
      _ = sharedPages.walk 40 [] ["app", "views", "..draft.prism"] := if_neg (by decide)
      _ = sharedPages.walk 40 ["app"] ["views", "..draft.prism"] :=
        FileTree.walk_directory (by decide) (by decide) 40 _
      _ = sharedPages.walk 40 ["app", "views"] ["..draft.prism"] :=
        FileTree.walk_directory (by decide) (by decide) 40 _
      _ = .ok ["app", "views", "..draft.prism"] := FileTree.walk_file (by decide) hentry 40
  change sharedPages.content? ["app", "views", "..draft.prism"] = some (.file [])
  rw [FileTree.content?, hopen]
  simp only [hentry]

/-- A draft in the views is granted from the root of the application: a name that starts with two dots is no obstacle
below the first one. -/
theorem draft_granted :
    Guard.Admissible "views/..draft.prism" ∧
      sharedPages.fileSystem.content? ["app", "views", "..draft.prism"] = some (.file []) ∧
      Guard.validate sharedPages.fileSystem [] "views/..draft.prism" "/app" =
        .ok ["app", "views", "..draft.prism"] := by
  have hadmissible : Guard.Admissible "views/..draft.prism" := Guard.textFault?_eq_none_iff.1 (by decide)
  have hbase : Path.resolve [] "/app" = ["app"] := by decide
  have htarget : Path.resolve ["app"] "views/..draft.prism" = ["app", "views", "..draft.prism"] := by decide
  have hroot : sharedPages.fileSystem.realPath ["app"] = .ok ["app"] := FileTree.realPath_of_none (by decide)
  have hreal : sharedPages.fileSystem.realPath ["app", "views", "..draft.prism"] =
      .ok ["app", "views", "..draft.prism"] := FileTree.realPath_of_none (by decide)
  have hbelow : Path.resolve (Path.resolve [] "/app") "views/..draft.prism" =
      Path.resolve [] "/app" ++ "views" :: ["..draft.prism"] := by decide
  have hstays : (sharedPages.fileSystem.content?
        (Path.resolve (Path.resolve [] "/app") "views/..draft.prism")).isSome = true →
      ∃ realRoot realRest, sharedPages.fileSystem.realPath (Path.resolve [] "/app") = .ok realRoot ∧
        sharedPages.fileSystem.realPath (Path.resolve (Path.resolve [] "/app") "views/..draft.prism") =
          .ok (realRoot ++ "views" :: realRest) := by
    rw [hbase, htarget, hroot, hreal]
    exact fun _ => ⟨["app"], ["..draft.prism"], rfl, rfl⟩
  have hgranted := (Guard.validate_eq_ok_iff hadmissible hbelow hstays).1
  have hplain : Path.startsWithDots "views" = false := by decide
  rw [hbase, htarget, hplain] at hgranted
  exact ⟨hadmissible, content?_draft, hgranted.2 (by simp)⟩

/-- From the directory of the views the same draft is refused, although its name stands in that directory and so does
its real path. -/
theorem dottedDraft_refused :
    Guard.Admissible "..draft.prism" ∧
      Path.resolve (Path.resolve [] "/app/views") "..draft.prism" =
        Path.resolve [] "/app/views" ++ ["..draft.prism"] ∧
      sharedPages.fileSystem.content? ["app", "views", "..draft.prism"] = some (.file []) ∧
      sharedPages.fileSystem.realPath ["app", "views"] = .ok ["app", "views"] ∧
      sharedPages.fileSystem.realPath ["app", "views", "..draft.prism"] =
        .ok (["app", "views"] ++ ["..draft.prism"]) ∧
      Guard.validate sharedPages.fileSystem [] "..draft.prism" "/app/views" =
        .error (.sandbox (.pathRejected "..draft.prism" .outsideRoot)) := by
  have hadmissible : Guard.Admissible "..draft.prism" := Guard.textFault?_eq_none_iff.1 (by decide)
  exact ⟨hadmissible, by decide, content?_draft, FileTree.realPath_of_none (by decide),
    FileTree.realPath_of_none (by decide), Guard.validate_of_outside _ hadmissible (by decide)⟩

end ReactiveView
