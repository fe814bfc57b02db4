import Lisplet.Text.Lines
import Mathlib.Data.List.Chain

/-!
# Lines of texts

There is one way to cut a text into lines and breaks such that the breaks put in again give the text
(`Broken.Cuts`, `cuts_iff`).  How the breaks are written makes no difference to the lines
(`lines_unifyBreaks`).

A line feed between two texts is a line break, unless the first one ends in a carriage return with
which it would make one break.  So the lines of two texts with a line feed between them are those of
the first and then those of the second (`lines_append_lineFeed`), and texts without breaks that are
joined by line feeds are the lines of what they are joined to (`lines_intercalate`).
-/

namespace Lisplet.Text

namespace Broken

/-- A text, a break and another text. -/
def followedBy (b : Broken) (k : Break) (b' : Broken) : Broken :=
  ⟨b.first, b.rest ++ (k, b'.first) :: b'.rest⟩

theorem push_followedBy (c : Char) (b : Broken) (k : Break) (b' : Broken) :
    (b.push c).followedBy k b' = (b.followedBy k b').push c := rfl

theorem breakWith_followedBy (k' : Break) (b : Broken) (k : Break) (b' : Broken) :
    (b.breakWith k').followedBy k b' = (b.followedBy k b').breakWith k' := rfl

theorem lines_followedBy (b : Broken) (k : Break) (b' : Broken) :
    (b.followedBy k b').lines = b.lines ++ b'.lines := by
  simp [followedBy, lines]

end Broken

/-! ## Cutting -/

theorem cut_lineFeed (s : List Char) : cut ('\n' :: s) = (cut s).breakWith .lineFeed := by
  simp [cut]

theorem cut_return {s : List Char} (h : s.head? ≠ some '\n') :
    cut ('\r' :: s) = (cut s).breakWith .carriageReturn := by
  cases s with
  | nil => rfl
  | cons c cs =>
    rw [cut]
    rintro rest ⟨⟩
    exact h rfl

/-- A text that does not begin with a line feed. -/
theorem head?_ne_lineFeed {s : List Char} (h : ∀ rest, s = '\n' :: rest → False) :
    s.head? ≠ some '\n' := fun head => h s.tail (List.eq_cons_of_mem_head? head)

theorem cut_cons {c : Char} (return' : c ≠ '\r') (feed : c ≠ '\n') (s : List Char) :
    cut (c :: s) = (cut s).push c := by
  rw [cut]
  · rintro rest rfl
    exact absurd rfl return'
  · exact return'
  · exact feed

/-- The rest of a text ends as the text does. -/
theorem getLast?_ne_of_cons {c d : Char} {s : List Char} (h : (c :: s).getLast? ≠ some d) :
    s.getLast? ≠ some d := by
  intro last
  simp [List.getLast?_cons, last] at h

/-- A line feed after a text that does not end in a carriage return is a break of its own. -/
theorem cut_append_lineFeed {a : List Char} (h : a.getLast? ≠ some '\r') (b : List Char) :
    cut (a ++ '\n' :: b) = (cut a).followedBy .lineFeed (cut b) := by
  induction a using cut.induct with
  | case1 => exact cut_lineFeed b
  | case2 cs ih =>
    have rest := getLast?_ne_of_cons (getLast?_ne_of_cons h)
    rw [List.cons_append, List.cons_append, cut, cut, ih rest, Broken.breakWith_followedBy]
  | case3 cs single ih =>
    have more : cs ≠ [] := by
      rintro rfl
      exact h rfl
    obtain ⟨c, cs, rfl⟩ := List.exists_cons_of_ne_nil more
    have other : c ≠ '\n' := by
      rintro rfl
      exact single cs rfl
    rw [List.cons_append, cut_return (by simpa using other), cut_return (by simpa using other),
      ih (getLast?_ne_of_cons h), Broken.breakWith_followedBy]
  | case4 cs ih =>
    rw [List.cons_append, cut_lineFeed, cut_lineFeed, ih (getLast?_ne_of_cons h),
      Broken.breakWith_followedBy]
  | case5 c cs pair return' feed ih =>
    rw [List.cons_append, cut_cons return' feed, cut_cons return' feed, ih (getLast?_ne_of_cons h),
      Broken.push_followedBy]

/-! ## Lines -/

/-- The lines of two texts with a line feed between them. -/
theorem lines_append_lineFeed {a : List Char} (h : a.getLast? ≠ some '\r') (b : List Char) :
    lines (a ++ '\n' :: b) = lines a ++ lines b := by
  rw [lines, cut_append_lineFeed h, Broken.lines_followedBy]
  rfl

theorem lines_lineFeed (s : List Char) : lines ('\n' :: s) = [] :: lines s :=
  lines_append_lineFeed (a := []) (by simp) s

/-- Line feeds at the front are empty lines. -/
theorem lines_replicate_append (k : Nat) (s : List Char) :
    lines (List.replicate k '\n' ++ s) = List.replicate k [] ++ lines s := by
  induction k with
  | zero => rfl
  | succ k ih =>
    rw [List.replicate_succ, List.replicate_succ, List.cons_append, lines_lineFeed, ih]
    rfl

/-- A text without line breaks. -/
def IsLine (s : List Char) : Prop := '\n' ∉ s ∧ '\r' ∉ s

theorem isLine_cons {c : Char} {s : List Char} :
    IsLine (c :: s) ↔ (c ≠ '\n' ∧ c ≠ '\r') ∧ IsLine s := by
  simp only [IsLine, List.mem_cons, not_or, ne_eq, eq_comm]
  tauto

theorem isLine_append {s t : List Char} : IsLine (s ++ t) ↔ IsLine s ∧ IsLine t := by
  simp only [IsLine, List.mem_append, not_or]
  tauto

/-- No line of a text has a break in it. -/
theorem isLine_of_mem_lines {s line : List Char} (h : line ∈ lines s) : IsLine line := by
  have all : ∀ s : List Char, IsLine (cut s).first ∧ ∀ part ∈ (cut s).rest, IsLine part.2 := by
    intro s
    have empty : IsLine [] := ⟨by simp, by simp⟩
    induction s using cut.induct with
    | case1 => exact ⟨empty, by simp [cut]⟩
    | case2 cs ih =>
      rw [cut]
      exact ⟨empty, List.forall_mem_cons.2 ih⟩
    | case3 cs single ih =>
      rw [cut_return (head?_ne_lineFeed single)]
      exact ⟨empty, List.forall_mem_cons.2 ih⟩
    | case4 cs ih =>
      rw [cut_lineFeed]
      exact ⟨empty, List.forall_mem_cons.2 ih⟩
    | case5 c cs pair return' feed ih =>
      rw [cut_cons return' feed]
      exact ⟨isLine_cons.2 ⟨⟨feed, return'⟩, ih.1⟩, ih.2⟩
  rcases List.mem_cons.1 h with rfl | later
  · exact (all s).1
  · obtain ⟨part, mem, rfl⟩ := List.mem_map.1 later
    exact (all s).2 part mem

/-- A text without breaks is one line. -/
theorem lines_of_isLine {s : List Char} (h : IsLine s) : lines s = [s] := by
  have whole : cut s = ⟨s, []⟩ := by
    induction s with
    | nil => rfl
    | cons c cs ih =>
      obtain ⟨⟨feed, return'⟩, rest⟩ := isLine_cons.1 h
      rw [cut_cons return' feed, ih rest]
      rfl
  rw [lines, whole]
  rfl

/-- Texts without breaks are the lines of the text that they are joined to by line feeds. -/
theorem lines_intercalate {texts : List (List Char)} (some : texts ≠ [])
    (h : ∀ text ∈ texts, IsLine text) : lines (['\n'].intercalate texts) = texts := by
  induction texts with
  | nil => exact absurd rfl some
  | cons text texts ih =>
    obtain ⟨first, rest⟩ := List.forall_mem_cons.1 h
    cases texts with
    | nil =>
      rw [List.intercalate_singleton]
      exact lines_of_isLine first
    | cons next texts =>
      have last : text.getLast? ≠ Option.some '\r' := fun last =>
        first.2 (List.mem_of_getLast? last)
      rw [List.intercalate_cons_cons, List.append_assoc, List.singleton_append,
        lines_append_lineFeed last, lines_of_isLine first, ih (by simp) rest]
      rfl

/-! ## Breaks -/

namespace Broken

/-- A carriage return directly before a line feed makes one break with it. -/
def IsWhole (b : Broken) : Prop :=
  b.rest.IsChain fun part next => ¬ (part.1 = .carriageReturn ∧ part.2 = [] ∧ next.1 = .lineFeed)

/-- A text is cut into lines and breaks: put together again they are the text, no line has a break
in it, and the breaks are whole. -/
structure Cuts (b : Broken) (s : List Char) : Prop where
  text : b.text = s
  lines : ∀ line ∈ b.lines, IsLine line
  whole : b.IsWhole

theorem text_push (c : Char) (b : Broken) : (b.push c).text = c :: b.text := rfl

theorem text_breakWith (k : Break) (b : Broken) : (b.breakWith k).text = k.text ++ b.text := by
  simp [breakWith, text]

/-- A text begins with a line feed if its first line is empty and its first break a line feed. -/
theorem head?_text {b : Broken} (line : IsLine b.first) :
    b.text.head? = some '\n' ↔ b.first = [] ∧ ∃ next ∈ b.rest.head?, next.1 = .lineFeed := by
  obtain ⟨first, rest⟩ := b
  cases first with
  | cons c cs => simp [text, (isLine_cons.1 line).1.1]
  | nil =>
    cases rest with
    | nil => simp [text]
    | cons part rest =>
      obtain ⟨k, line⟩ := part
      cases k <;> simp [text, Break.text]

theorem isWhole_breakWith {k : Break} {b : Broken} (line : IsLine b.first) :
    (b.breakWith k).IsWhole ↔ (k = .carriageReturn → b.text.head? ≠ some '\n') ∧ b.IsWhole := by
  rw [IsWhole, breakWith, List.isChain_cons, ne_eq, head?_text line]
  refine and_congr_left fun _ => ⟨fun apart return' => ?_, fun apart next mem => ?_⟩
  · rintro ⟨empty, next, mem, feed⟩
    exact apart next mem ⟨return', empty, feed⟩
  · rintro ⟨return', empty, feed⟩
    exact apart return' ⟨empty, next, mem, feed⟩

end Broken

theorem text_cut (s : List Char) : (cut s).text = s := by
  induction s using cut.induct with
  | case1 => rfl
  | case2 cs ih =>
    rw [cut, Broken.text_breakWith, ih]
    rfl
  | case3 cs single ih =>
    rw [cut_return (head?_ne_lineFeed single), Broken.text_breakWith, ih]
    rfl
  | case4 cs ih =>
    rw [cut_lineFeed, Broken.text_breakWith, ih]
    rfl
  | case5 c cs pair return' feed ih => rw [cut_cons return' feed, Broken.text_push, ih]

theorem isWhole_cut (s : List Char) : (cut s).IsWhole := by
  have line (s : List Char) : IsLine (cut s).first := isLine_of_mem_lines List.mem_cons_self
  induction s using cut.induct with
  | case1 => exact .nil
  | case2 cs ih =>
    rw [cut, Broken.isWhole_breakWith (line cs)]
    exact ⟨nofun, ih⟩
  | case3 cs single ih =>
    have alone := head?_ne_lineFeed single
    rw [cut_return alone, Broken.isWhole_breakWith (line cs), text_cut]
    exact ⟨fun _ => alone, ih⟩
  | case4 cs ih =>
    rw [cut_lineFeed, Broken.isWhole_breakWith (line cs)]
    exact ⟨nofun, ih⟩
  | case5 c cs pair return' feed ih =>
    rw [cut_cons return' feed]
    exact ih

/-- A break at the front of a text, unless it is a carriage return that belongs to a line feed. -/
theorem cut_break {k : Break} {s : List Char}
    (h : k = .carriageReturn → s.head? ≠ some '\n') : cut (k.text ++ s) = (cut s).breakWith k := by
  cases k with
  | lineFeed => exact cut_lineFeed s
  | carriageReturn => exact cut_return (h rfl)
  | returnAndFeed =>
    rw [Break.text, List.cons_append, List.cons_append, cut]
    rfl

theorem cut_append_of_isLine {line : List Char} (h : IsLine line) (s : List Char) :
    cut (line ++ s) = ⟨line ++ (cut s).first, (cut s).rest⟩ := by
  induction line with
  | nil => rfl
  | cons c cs ih =>
    obtain ⟨⟨feed, return'⟩, rest⟩ := isLine_cons.1 h
    rw [List.cons_append, cut_cons return' feed, ih rest]
    rfl

/-- Lines and breaks are found again in the text that they are put together to. -/
theorem cut_text {first : List Char} {rest : List (Break × List Char)}
    (lines : ∀ line ∈ Broken.lines ⟨first, rest⟩, IsLine line)
    (whole : Broken.IsWhole ⟨first, rest⟩) :
    cut (Broken.text ⟨first, rest⟩) = ⟨first, rest⟩ := by
  -- By the breaks.  What comes after the first break is a text again, with the line after the break
  -- as its first one.
  induction rest generalizing first with
  | nil =>
    rw [Broken.text, cut_append_of_isLine (lines first List.mem_cons_self)]
    simp [cut]
  | cons part rest ih =>
    obtain ⟨k, line⟩ := part
    obtain ⟨isLine, later⟩ := List.forall_mem_cons.1 lines
    have front : Broken.text ⟨first, (k, line) :: rest⟩ =
        first ++ (k.text ++ Broken.text ⟨line, rest⟩) := by
      simp [Broken.text]
    have isNextLine : IsLine (Broken.mk line rest).first := later line List.mem_cons_self
    have next := (Broken.isWhole_breakWith isNextLine).1 whole
    rw [front, cut_append_of_isLine isLine, cut_break next.1, ih later next.2]
    simp [Broken.breakWith]

/-- There is one way to cut a text. -/
theorem cuts_iff {b : Broken} {s : List Char} : b.Cuts s ↔ b = cut s := by
  constructor
  · rintro ⟨rfl, lines, whole⟩
    exact (cut_text lines whole).symm
  · rintro rfl
    exact ⟨text_cut s, fun line mem => isLine_of_mem_lines mem, isWhole_cut s⟩

/-- With every break written as a line feed a text is its lines, joined by line feeds. -/
theorem unifyBreaks_eq (s : List Char) : unifyBreaks s = ['\n'].intercalate (lines s) := by
  have broken (k : Break) (b : Broken) :
      ['\n'].intercalate (b.breakWith k).lines = '\n' :: ['\n'].intercalate b.lines := by
    simp [Broken.lines, Broken.breakWith]
  have pushed (c : Char) (b : Broken) :
      ['\n'].intercalate (b.push c).lines = c :: ['\n'].intercalate b.lines := by
    obtain ⟨first, rest⟩ := b
    cases rest <;> simp [Broken.lines, Broken.push]
  unfold lines
  induction s using cut.induct with
  | case1 => rfl
  | case2 cs ih => rw [unifyBreaks, cut, broken, ih]
  | case3 cs single ih =>
    rw [unifyBreaks, cut_return (head?_ne_lineFeed single), broken, ih]
    exact single
  | case4 cs ih =>
    rw [unifyBreaks, cut_lineFeed, broken, ih]
    · simp
    · simp
  | case5 c cs pair return' feed ih =>
    rw [unifyBreaks, cut_cons return' feed, pushed, ih]
    · exact pair
    · exact return'

/-- A text has the same lines when all its breaks are line feeds. -/
theorem lines_unifyBreaks (s : List Char) : lines (unifyBreaks s) = lines s := by
  rw [unifyBreaks_eq]
  exact lines_intercalate (by simp [lines, Broken.lines]) fun _ => isLine_of_mem_lines

/-- There is one way to cut a text into lines and whole breaks, and `lines` gives the lines of it;
no line has a break in it.  Written with line feeds for all its breaks, a text has the same lines.
A line feed after a text that does not end in a carriage return separates the lines of the text from
the lines after it. -/
theorem lines_lossless (s : List Char) :
    (∃ b : Broken, b.lines = lines s ∧ b.Cuts s ∧ ∀ b' : Broken, b'.Cuts s → b' = b) ∧
      (∀ line ∈ lines s, '\n' ∉ line ∧ '\r' ∉ line) ∧
      unifyBreaks s = ['\n'].intercalate (lines s) ∧
      lines (unifyBreaks s) = lines s ∧
      ∀ t : List Char, s.getLast? ≠ some '\r' → lines (s ++ '\n' :: t) = lines s ++ lines t :=
  ⟨⟨cut s, rfl, cuts_iff.2 rfl, fun _ => cuts_iff.1⟩, fun _ => isLine_of_mem_lines,
    unifyBreaks_eq s, lines_unifyBreaks s, fun t h => lines_append_lineFeed h t⟩

/-- Three breaks in a row, of which the middle one is made of two characters, and a text after them
that is a break itself. -/
theorem lines_lossless_mixed :
    let s : List Char := ['a', '\r', '\r', '\n', '\n', 'b']
    lines s = [['a'], [], [], ['b']] ∧ unifyBreaks s = ['a', '\n', '\n', '\n', 'b'] ∧
      s.getLast? ≠ some '\r' ∧ lines (s ++ '\n' :: ['\r']) = lines s ++ lines ['\r'] := by
  intro s
  have ending : s.getLast? ≠ some '\r' := by decide
  exact ⟨by decide, by decide, ending, (lines_lossless s).2.2.2.2 ['\r'] ending⟩

end Lisplet.Text
