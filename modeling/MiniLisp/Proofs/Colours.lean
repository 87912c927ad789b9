import MiniLisp.Proofs.Excerpts

/-!
# Colours

The escape sequences of a terminal can be erased from a text. What is then left of a diagnostic in
colours is the diagnostic without them, but for one character: the number of a line is filled up to
the width of the gutter only where it is not coloured, since its escape sequences count as
characters.

* `erase` : a text without its escape sequences;
* `Shows` : what is left of a text, whatever follows it;
* `Diagnostic.excerpt_shows` : the two excerpts of one line;
* `Diagnostic.erase_renderAll` : the theorem.
-/

namespace MiniLisp

open List Text

/-! ## Erasing -/

def esc : Char := '\x1b'

/-- Where a character stands: in a text, after `esc`, or in a control sequence. -/
inductive EscapeMode where
  | text
  | escape
  | control

/-- A text without its escape sequences. A control sequence ends with its first character from `@`
to `~`; other sequences have two characters. -/
def eraseFrom : EscapeMode → List Char → List Char
  | _, [] => []
  | .text, c :: cs => if c = esc then eraseFrom .escape cs else c :: eraseFrom .text cs
  | .escape, c :: cs => if c = '[' then eraseFrom .control cs else eraseFrom .text cs
  | .control, c :: cs =>
    if '@' ≤ c ∧ c ≤ '~' then eraseFrom .text cs else eraseFrom .control cs

def erase (s : String) : String := String.ofList (eraseFrom .text s.toList)

/-- What is left of `s` is `t`, whatever follows it. Texts that show something can be put one after
the other; with `erase s = t` alone that fails, as a sequence that starts in one text may end in the
next. -/
structure Shows (s t : String) : Prop where
  eraseFrom_append (rest : List Char) :
    eraseFrom .text (s.toList ++ rest) = t.toList ++ eraseFrom .text rest

def EscFree (s : String) : Prop := esc ∉ s.toList

instance (s : String) : Decidable (EscFree s) := inferInstanceAs (Decidable (esc ∉ s.toList))

namespace Shows

variable {s s' t t' : String}

theorem erase_eq (h : Shows s t) : erase s = t := by
  have hall : eraseFrom .text s.toList = t.toList := by
    simpa [eraseFrom] using h.eraseFrom_append []
  rw [erase, hall, String.ofList_toList]

theorem append (h : Shows s t) (h' : Shows s' t') : Shows (s ++ s') (t ++ t') := by
  constructor
  intro rest
  rw [String.toList_append, String.toList_append, List.append_assoc, h.eraseFrom_append,
    h'.eraseFrom_append, List.append_assoc]

theorem self (h : EscFree s) : Shows s s := by
  constructor
  intro rest
  unfold EscFree at h
  generalize s.toList = cs at h ⊢
  induction cs with
  | nil => rfl
  | cons c cs ih =>
    obtain ⟨hc, hcs⟩ : c ≠ esc ∧ esc ∉ cs := by
      simpa [eq_comm] using h
    rw [List.cons_append, eraseFrom, if_neg hc, ih hcs]
    rfl

theorem join {ss ts : List String} (h : Forall₂ Shows ss ts) :
    Shows (String.join ss) (String.join ts) := by
  induction h with
  | nil => exact ⟨fun _ => rfl⟩
  | cons hs _ ih =>
    rw [String.join_cons, String.join_cons]
    exact hs.append ih

theorem between {opening closing : String} (hopening : Shows opening "")
    (hclosing : Shows closing "") (h : Shows s t) : Shows (opening ++ s ++ closing) t := by
  simpa using (hopening.append h).append hclosing

theorem paint (style : Style) (h : Shows s t) :
    Shows (style.paint true s) (style.paint false t) := by
  cases style with
  | bold => exact .between ⟨fun _ => rfl⟩ ⟨fun _ => rfl⟩ h
  | red => exact .between ⟨fun _ => rfl⟩ ⟨fun _ => rfl⟩ h
  | blue => exact .between ⟨fun _ => rfl⟩ ⟨fun _ => rfl⟩ h
  | redBold => exact .between ⟨fun _ => rfl⟩ ⟨fun _ => rfl⟩ h

end Shows

/-! ## Texts without escape sequences -/

theorem escFree_toString (n : Nat) : EscFree (toString n) := by
  intro hmem
  have hdigits : (toString n).toList = Nat.toDigits 10 n := String.toList_ofList
  rw [hdigits] at hmem
  exact absurd (Nat.isDigit_of_mem_toDigits (by decide) (by decide) hmem) (by decide)

theorem Shows.number (n : Nat) : Shows (toString n) (toString n) := .self (escFree_toString n)

theorem Shows.repeated (n : Nat) {c : Char} (hc : c ≠ esc) :
    Shows (Text.repeated n c) (Text.repeated n c) := by
  refine .self ?_
  unfold EscFree Text.repeated
  simp [eq_comm, hc]

theorem escFree_line {source : String} (h : EscFree source) {content : List Char}
    (hcontent : content ∈ lines source.toList) : EscFree (String.ofList content) := by
  intro hmem
  rw [String.toList_ofList] at hmem
  exact h (subset_of_mem_lines hcontent hmem)

namespace Diagnostic

/-- Are the texts of a diagnostic free of escape sequences? -/
structure Bare (d : Diagnostic) : Prop where
  code : ∀ code ∈ d.code?, EscFree code
  message : EscFree d.message
  notes : ∀ note ∈ d.notes, EscFree note

/-! ## The two excerpts of a line -/

def bar (coloured : Bool) (d : Diagnostic) : String :=
  String.join [repeated ((toString d.line).length + 1) ' ', " ", Style.blue.paint coloured "|"]

/-- What an excerpt has before the number of its line: where that is, and an empty line. -/
def excerptTop (view : View) (d : Diagnostic) (content : List Char) : String :=
  String.join ["  ", Style.blue.paint view.coloured "-->", " ", view.fileName, ":",
    toString d.line, ":", toString (((column? content d.location).map (·.start + 1)).getD 1), "\n",
    bar view.coloured d, "\n"]

def marks (coloured : Bool) (d : Diagnostic) (column? : Option Column) : String :=
  match column? with
  | some c =>
    String.join [bar coloured d, " ", repeated c.start ' ',
      Style.red.paint coloured (repeated (max c.width 1) '^'), "\n"]
  | none => ""

def excerptBottom (coloured : Bool) (d : Diagnostic) (content : List Char) : String :=
  String.join [" ", Style.blue.paint coloured "|", " ", String.ofList content, "\n",
    marks coloured d (column? content d.location), bar coloured d, "\n"]

theorem excerpt_eq (view : View) (d : Diagnostic) (content : List Char) :
    excerpt view d content = excerptTop view d content
      ++ padLeft ((toString d.line).length + 1) (Style.blue.paint view.coloured (toString d.line))
      ++ excerptBottom view.coloured d content := by
  unfold excerpt excerptTop excerptBottom marks bar
  cases column? content d.location with
  | none => simp [String.join_cons, String.append_assoc]
  | some c => simp [String.join_cons, String.append_assoc]

section Shows

variable (source fileName : String) (d : Diagnostic) {content : List Char}

theorem bar_shows : Shows (bar true d) (bar false d) := by
  refine .join ?_
  simp only [forall₂_cons]
  exact ⟨.repeated _ (by decide), .self (by decide), .paint .blue (.self (by decide)), .nil⟩

theorem marks_shows (column? : Option Column) :
    Shows (marks true d column?) (marks false d column?) := by
  cases column? with
  | none => exact ⟨fun _ => rfl⟩
  | some c =>
    refine .join ?_
    simp only [forall₂_cons]
    exact ⟨bar_shows d, .self (by decide), .repeated _ (by decide),
      .paint .red (.repeated _ (by decide)), .self (by decide), .nil⟩

theorem excerptTop_shows (hfile : EscFree fileName) :
    Shows (excerptTop ⟨source, fileName, true⟩ d content)
      (excerptTop ⟨source, fileName, false⟩ d content) := by
  refine .join ?_
  simp only [forall₂_cons]
  exact ⟨.self (by decide), .paint .blue (.self (by decide)), .self (by decide), .self hfile,
    .self (by decide), .number _, .self (by decide), .number _, .self (by decide), bar_shows d,
    .self (by decide), .nil⟩

theorem excerptBottom_shows (hcontent : EscFree (String.ofList content)) :
    Shows (excerptBottom true d content) (excerptBottom false d content) := by
  refine .join ?_
  simp only [forall₂_cons]
  exact ⟨.self (by decide), .paint .blue (.self (by decide)), .self (by decide), .self hcontent,
    .self (by decide), marks_shows d _, bar_shows d, .self (by decide), .nil⟩

/-- Without colours the number of a line is filled up to the width of the gutter. -/
theorem padLeft_number (n : Nat) : padLeft ((toString n).length + 1) (toString n) =
    " " ++ toString n := by
  rw [padLeft, Nat.add_sub_cancel_left]
  rfl

/-- The escape sequences around a number are longer than what is missing. -/
theorem padLeft_blue (n : Nat) :
    padLeft ((toString n).length + 1) (Style.blue.paint true (toString n)) =
      Style.blue.paint true (toString n) := by
  have hopening : "\x1b[34m".length = 5 := by decide
  have hwide : (toString n).length + 1 ≤ (Style.blue.paint true (toString n)).length := by
    simp only [Style.paint, if_true, String.length_append, hopening]
    omega
  rw [padLeft, Nat.sub_eq_zero_of_le hwide]
  exact String.empty_append

/-- A line and its number, without colours and without the space before them. -/
def numbered (d : Diagnostic) (content : List Char) : String :=
  toString d.line ++ " | " ++ String.ofList content ++ "\n"

/-- **A coloured number is not filled up**: the two excerpts of a line differ in one space. -/
theorem excerpt_shows (hfile : EscFree fileName)
    (hcontent : EscFree (String.ofList content)) :
    ∃ top bottom,
      excerpt ⟨source, fileName, false⟩ d content = top ++ " " ++ numbered d content ++ bottom ∧
      Shows (excerpt ⟨source, fileName, true⟩ d content)
        (top ++ numbered d content ++ bottom) := by
  have hbottom : toString d.line ++ excerptBottom false d content = numbered d content
      ++ String.join [marks false d (column? content d.location), bar false d, "\n"] := by
    have hbar : " | " = " " ++ ("|" ++ " ") := by decide
    simp only [excerptBottom, numbered, hbar, Style.paint, Bool.false_eq_true, if_false,
      String.join_cons, String.append_assoc]
  refine ⟨excerptTop ⟨source, fileName, false⟩ d content,
    String.join [marks false d (column? content d.location), bar false d, "\n"], ?_, ?_⟩
  · simp only [excerpt_eq, Style.paint, Bool.false_eq_true, if_false, padLeft_number,
      String.append_assoc, hbottom]
  · rw [excerpt_eq, padLeft_blue, String.append_assoc, String.append_assoc, ← hbottom]
    exact (excerptTop_shows source fileName d hfile).append
      ((Shows.paint .blue (.number _)).append (excerptBottom_shows d hcontent))

/-! ## Diagnostics -/

def codeText (d : Diagnostic) : String :=
  match d.code? with
  | some code => "[" ++ code ++ "]"
  | none => ""

theorem codeText_shows (hd : d.Bare) : Shows (codeText d) (codeText d) := by
  unfold codeText
  cases hcode : d.code? with
  | none => exact ⟨fun _ => rfl⟩
  | some code =>
    exact ((Shows.self (by decide)).append (.self (hd.code code hcode))).append (.self (by decide))

theorem header_shows (hd : d.Bare) :
    Shows (header ⟨source, fileName, true⟩ d) (header ⟨source, fileName, false⟩ d) :=
  ((((Shows.paint .redBold (.self (by decide))).append (codeText_shows d hd)).append
    (.self (by decide))).append (.paint .bold (.self hd.message))).append (.self (by decide))

theorem noteLine_shows {note : String} (hnote : EscFree note) :
    Shows (noteLine ⟨source, fileName, true⟩ note) (noteLine ⟨source, fileName, false⟩ note) :=
  ((((((Shows.self (by decide)).append (.paint .blue (.self (by decide)))).append
    (.self (by decide))).append (.paint .bold (.self (by decide)))).append
    (.self (by decide))).append (.self hnote)).append (.self (by decide))

theorem notes_shows (hd : d.Bare) :
    Shows (String.join (d.notes.map (noteLine ⟨source, fileName, true⟩)))
      (String.join (d.notes.map (noteLine ⟨source, fileName, false⟩))) := by
  refine .join ?_
  rw [forall₂_map_left_iff, forall₂_map_right_iff, forall₂_same]
  exact fun note hnote => noteLine_shows source fileName (hd.notes note hnote)

theorem render_shows_self (hd : d.Bare) (hcontent : content? ⟨source, fileName, false⟩ d = none) :
    Shows (render ⟨source, fileName, true⟩ d) (render ⟨source, fileName, false⟩ d) := by
  have hcoloured : content? ⟨source, fileName, true⟩ d = none := hcontent
  have hnone : Shows "" "" := .self (by decide)
  unfold render
  rw [hcontent, hcoloured]
  exact ((header_shows source fileName d hd).append hnone).append (notes_shows source fileName d hd)

theorem render_shows (hsource : EscFree source) (hfile : EscFree fileName)
    (hd : d.Bare) (hcontent : content? ⟨source, fileName, false⟩ d = some content) :
    ∃ top bottom,
      render ⟨source, fileName, false⟩ d = top ++ " " ++ numbered d content ++ bottom ∧
      Shows (render ⟨source, fileName, true⟩ d) (top ++ numbered d content ++ bottom) := by
  have hcoloured : content? ⟨source, fileName, true⟩ d = some content := hcontent
  have hline : EscFree (String.ofList content) :=
    escFree_line hsource (List.mem_of_getElem? hcontent)
  obtain ⟨top, bottom, hplain, hshows⟩ := excerpt_shows source fileName d hfile hline
  refine ⟨header ⟨source, fileName, false⟩ d ++ top,
    bottom ++ String.join (d.notes.map (noteLine ⟨source, fileName, false⟩)), ?_, ?_⟩
  · unfold render
    rw [hcontent]
    dsimp only
    rw [hplain]
    simp only [String.append_assoc]
  · have hall := ((header_shows source fileName d hd).append hshows).append
      (notes_shows source fileName d hd)
    unfold render
    rw [hcoloured]
    simpa only [String.append_assoc] using hall

end Shows

theorem summary_shows (n : Nat) : Shows (summary n) (summary n) := by
  match n with
  | 0 => exact .self (by decide)
  | 1 => exact .self (by decide)
  | n + 2 => exact ((Shows.self (by decide)).append (.number (n + 2))).append (.self (by decide))

/-- What is left of diagnostics in colours is shorter than they are without, by as many characters
as there are excerpts. -/
theorem join_shows {source fileName : String} (hsource : EscFree source)
    (hfile : EscFree fileName) {ds : List Diagnostic} (hds : ∀ d ∈ ds, d.Bare) :
    ∃ t, Shows (String.join (ds.map fun d => render ⟨source, fileName, true⟩ d ++ "\n")) t ∧
      (String.join (ds.map fun d => render ⟨source, fileName, false⟩ d ++ "\n")).length =
        t.length + ds.countP fun d => (content? ⟨source, fileName, false⟩ d).isSome := by
  induction ds with
  | nil => exact ⟨"", ⟨fun _ => rfl⟩, rfl⟩
  | cons d ds ih =>
    obtain ⟨hd, hds⟩ := List.forall_mem_cons.1 hds
    obtain ⟨t, hrest, hlength⟩ := ih hds
    obtain ⟨t', hfirst, hlength'⟩ : ∃ t', Shows (render ⟨source, fileName, true⟩ d) t' ∧
        (render ⟨source, fileName, false⟩ d).length =
          t'.length + (content? ⟨source, fileName, false⟩ d).isSome.toNat := by
      cases hcontent : content? ⟨source, fileName, false⟩ d with
      | none => exact ⟨_, render_shows_self source fileName d hd hcontent, (Nat.add_zero _).symm⟩
      | some content =>
        obtain ⟨top, bottom, hplain, hshows⟩ :=
          render_shows source fileName d hsource hfile hd hcontent
        have hspace : " ".length = 1 := by decide
        refine ⟨_, hshows, ?_⟩
        simp only [hplain, String.length_append, hspace, Option.isSome_some, Bool.toNat_true]
        omega
    refine ⟨t' ++ "\n" ++ t, ?_, ?_⟩
    · rw [List.map_cons, String.join_cons]
      exact (hfirst.append (.self (by decide))).append hrest
    · simp only [List.map_cons, String.join_cons, String.length_append, hlength, hlength',
        List.countP_cons]
      cases content? ⟨source, fileName, false⟩ d <;> simp <;> omega

theorem erase_renderAll_iff {source fileName : String} (hsource : EscFree source)
    (hfile : EscFree fileName) {ds : List Diagnostic} (hds : ∀ d ∈ ds, d.Bare) :
    erase (renderAll ⟨source, fileName, true⟩ ds) = renderAll ⟨source, fileName, false⟩ ds ↔
      ∀ d ∈ ds, content? ⟨source, fileName, false⟩ d = none := by
  constructor
  · intro herase
    obtain ⟨t, hshows, hlength⟩ := join_shows hsource hfile hds
    have hleft : erase (renderAll ⟨source, fileName, true⟩ ds) = t ++ summary ds.length :=
      (hshows.append (summary_shows ds.length)).erase_eq
    have hcount := congrArg String.length (hleft.symm.trans herase)
    rw [renderAll, String.length_append, String.length_append, hlength] at hcount
    have hnone : ds.countP (fun d => (content? ⟨source, fileName, false⟩ d).isSome) = 0 := by
      omega
    intro d hd
    simpa using List.countP_eq_zero.1 hnone d hd
  · intro hnone
    have hall : Shows (String.join (ds.map fun d => render ⟨source, fileName, true⟩ d ++ "\n"))
        (String.join (ds.map fun d => render ⟨source, fileName, false⟩ d ++ "\n")) := by
      refine .join ?_
      rw [forall₂_map_left_iff, forall₂_map_right_iff, forall₂_same]
      intro d hd
      exact (render_shows_self source fileName d (hds d hd) (hnone d hd)).append
        (.self (by decide))
    exact (hall.append (summary_shows ds.length)).erase_eq

/-- **Colours cost one space for every excerpt.** Without its escape sequences an excerpt in colours
lacks the space before the number of its line, and nothing else; so erasing the colours of
diagnostics leaves what they are without colours only if none of them shows an excerpt. -/
theorem erase_renderAll {source fileName : String} (hsource : EscFree source)
    (hfile : EscFree fileName) {ds : List Diagnostic} (hds : ∀ d ∈ ds, d.Bare) :
    let coloured : View := ⟨source, fileName, true⟩
    let plain : View := ⟨source, fileName, false⟩
    (∀ d ∈ ds, ∀ content, content? plain d = some content → ∃ top bottom,
      render plain d = top ++ " " ++ numbered d content ++ bottom ∧
      erase (render coloured d) = top ++ numbered d content ++ bottom) ∧
    (erase (renderAll coloured ds) = renderAll plain ds ↔ ∀ d ∈ ds, content? plain d = none) := by
  refine ⟨fun d hd content hcontent => ?_, erase_renderAll_iff hsource hfile hds⟩
  obtain ⟨top, bottom, hplain, hshows⟩ :=
    render_shows source fileName d hsource hfile (hds d hd) hcontent
  exact ⟨top, bottom, hplain, hshows.erase_eq⟩

/-- An excerpt of the tenth line, and an error after the last line. -/
theorem erase_renderAll_excerpt :
    let source := "\n\n\n\n\n\n\n\n\n(f é)"
    let shown : Diagnostic := ⟨some "E0201", "m", 10, .at "é", ["n"]⟩
    let unshown : Diagnostic := ⟨none, "m", 12, .unknown, []⟩
    (∃ top bottom,
      render ⟨source, "f", false⟩ shown = top ++ " " ++ "10 | (f é)\n" ++ bottom ∧
      erase (render ⟨source, "f", true⟩ shown) = top ++ "10 | (f é)\n" ++ bottom) ∧
    erase (renderAll ⟨source, "f", true⟩ [unshown]) = renderAll ⟨source, "f", false⟩ [unshown] := by
  intro source shown unshown
  have hshown : shown.Bare := ⟨by decide, by decide, by decide⟩
  have hunshown : unshown.Bare := ⟨by decide, by decide, by decide⟩
  have hsource : EscFree source := by decide
  have hfile : EscFree "f" := by decide
  have hnumbered : shown.numbered "(f é)".toList = "10 | (f é)\n" := by decide +kernel
  obtain ⟨hexcerpt, -⟩ := erase_renderAll hsource hfile (List.forall_mem_singleton.2 hshown)
  obtain ⟨-, hiff⟩ := erase_renderAll hsource hfile (List.forall_mem_singleton.2 hunshown)
  rw [← hnumbered]
  refine ⟨hexcerpt shown List.mem_cons_self _ (by decide +kernel), hiff.2 ?_⟩
  exact List.forall_mem_singleton.2 (by decide +kernel)

/-- A diagnostic of a text with one line loses its space. -/
theorem erase_renderAll_ne : ¬ ∀ (source fileName : String) (ds : List Diagnostic),
    EscFree source → EscFree fileName → (∀ d ∈ ds, d.Bare) →
    erase (renderAll ⟨source, fileName, true⟩ ds) = renderAll ⟨source, fileName, false⟩ ds := by
  intro h
  have hbare : (⟨none, "m", 1, .unknown, []⟩ : Diagnostic).Bare :=
    ⟨by decide, by decide, by decide⟩
  have hds := List.forall_mem_singleton.2 hbare
  have hsource : EscFree "x" ∧ EscFree "f" := by decide
  have herase := h "x" "f" _ hsource.1 hsource.2 hds
  have hnone := (erase_renderAll_iff hsource.1 hsource.2 hds).1 herase _ List.mem_cons_self
  exact absurd hnone (by decide +kernel)

end Diagnostic

end MiniLisp
