import ClassAtlas.Text.Basic
import ClassAtlas.Text.Word

/-!
# Patterns with ordered readings

A pattern reads a value off the front of a text in every way it can, the
preferred way first. A choice lists its branches in order; a run of characters
lists its lengths from the longest down, or from the shortest up when it is
reluctant. Sequencing explores the first part's readings in their order, so the
first reading of a whole pattern is the one a backtracking reader would find.

A pattern also knows how to search its readings for one that a continuation
accepts, without building the others. `search_eq` says that this is the first
accepted one in the list of readings; facts about patterns are stated with the
list.
-/

namespace ClassAtlas.Text

/-- A way to read values of type `α` off the front of a text. -/
structure Pattern (α : Type) where
  /-- Every reading of a text, in order of preference: the value read and the
  text after it. -/
  readings : List Char → List (α × List Char)
  /-- What the continuation gives for the first reading that it accepts. -/
  search : {β : Type} → (α → List Char → Option β) → List Char → Option β
  search_eq : ∀ {β : Type} (k : α → List Char → Option β) (s : List Char),
    search k s = (readings s).findSome? fun reading => k reading.1 reading.2

namespace Pattern

variable {α β : Type}

/-- The pattern with the given readings. -/
def ofReadings (readings : List Char → List (α × List Char)) : Pattern α where
  readings
  search k s := (readings s).findSome? fun reading => k reading.1 reading.2
  search_eq _ _ := rfl

/-- The pattern with at most one reading of each text. -/
def ofReading? (read : List Char → Option (α × List Char)) : Pattern α where
  readings s := (read s).toList
  search k s := (read s).bind fun reading => k reading.1 reading.2
  search_eq k s := by
    cases read s with
    | none => rfl
    | some reading => simp [List.findSome?_cons]; cases k reading.1 reading.2 <;> rfl

/-- Reads nothing and gives `a`. -/
protected def pure (a : α) : Pattern α :=
  ofReading? fun s => some (a, s)

/-- Reads by `p`, then by the pattern that its value selects. -/
protected def bind (p : Pattern α) (f : α → Pattern β) : Pattern β where
  readings s := (p.readings s).flatMap fun (a, rest) => (f a).readings rest
  search k s := p.search (fun a rest => (f a).search k rest) s
  search_eq k s := by
    rw [p.search_eq]
    induction p.readings s with
    | nil => rfl
    | cons reading more ih =>
      rw [List.findSome?_cons, List.flatMap_cons, List.findSome?_append,
        (f reading.1).search_eq, ih]
      cases (List.findSome? _ ((f reading.1).readings reading.2)) <;> rfl

instance : Monad Pattern where
  pure := Pattern.pure
  bind := Pattern.bind

/-- The preferred reading of a text, if there is any. -/
def first? (p : Pattern α) (s : List Char) : Option (α × List Char) :=
  p.search (fun a rest => some (a, rest)) s

/-- Whether a text can be read at all. -/
def accepts (p : Pattern α) (s : List Char) : Bool :=
  (p.first? s).isSome

/-- The preferred reading is the first in the list of readings. -/
theorem first?_eq_head? (p : Pattern α) (s : List Char) :
    p.first? s = (p.readings s).head? := by
  rw [first?, p.search_eq]
  cases p.readings s <;> rfl

/-- A text is accepted if it has a reading. -/
theorem accepts_iff (p : Pattern α) (s : List Char) :
    p.accepts s = true ↔ p.readings s ≠ [] := by
  rw [accepts, first?_eq_head?]
  cases p.readings s <;> simp

/-- The patterns in order: every reading of an earlier one is preferred. -/
def oneOf (ps : List (Pattern α)) : Pattern α where
  readings s := ps.flatMap fun p => p.readings s
  search k s := ps.findSome? fun p => p.search k s
  search_eq k s := by
    induction ps with
    | nil => rfl
    | cons p more ih =>
      rw [List.findSome?_cons, List.flatMap_cons, List.findSome?_append, p.search_eq, ih]
      cases (List.findSome? _ (p.readings s)) <;> rfl

/-- Reads by `p` where it can, and else nothing. -/
def optional (p : Pattern α) : Pattern (Option α) where
  readings s := (p.readings s).map (fun (a, rest) => (some a, rest)) ++ [(none, s)]
  search k s :=
    match p.search (fun a rest => k (some a) rest) s with
    | some b => some b
    | none => k none s
  search_eq k s := by
    rw [p.search_eq, List.findSome?_append, List.findSome?_map]
    simp only [Function.comp_def, List.findSome?_cons, List.findSome?_nil]
    split
    · rename_i h
      rw [h]
      rfl
    · rename_i h
      rw [h]
      cases k none s <;> rfl

/-- Reads by `p` up to `n` times, as often as possible first, and puts each
item in front of those read before. -/
def upTo (p : Pattern α) : Nat → List α → Pattern (List α)
  | 0, items => Pattern.pure items
  | n + 1, items => oneOf [p.bind fun a => p.upTo n (a :: items), Pattern.pure items]

/-- Reads by `p` any number of times, as often as possible first, and lists the
items, the latest first. Each item takes at least one character, so a text of
length `n` holds at most `n`. -/
def many (p : Pattern α) : Pattern (List α) where
  readings s := (p.upTo s.length []).readings s
  search k s := (p.upTo s.length []).search k s
  search_eq k s := (p.upTo s.length []).search_eq k s

/-- A stretch of text: what follows its start, and what follows its end. -/
structure Span where
  start : List Char
  rest : List Char
  deriving DecidableEq, Repr

/-- The characters of a stretch of text. -/
def Span.text (span : Span) : List Char :=
  span.start.take (span.start.length - span.rest.length)

/-- Reads by `p` and gives the stretch of text that it took. -/
def taken (p : Pattern α) : Pattern Span where
  readings s := (p.readings s).map fun (_, rest) => ({ start := s, rest }, rest)
  search k s := p.search (fun _ rest => k { start := s, rest } rest) s
  search_eq k s := by
    rw [p.search_eq, List.findSome?_map]
    rfl

/-- Reads nothing, at the end of the text only. -/
def atEnd : Pattern Unit :=
  ofReading? fun s => if s.isEmpty then some ((), s) else none

/-- Reads one character of a class. -/
def one (ok : Char → Bool) : Pattern Char :=
  ofReading? fun
    | [] => none
    | c :: rest => if ok c then some (c, rest) else none

/-- Reads one given character. -/
def char (c : Char) : Pattern Unit :=
  ofReading? fun
    | [] => none
    | d :: rest => if d = c then some ((), rest) else none

/-- Reads a given text. -/
def literal (t : String) : Pattern Unit :=
  ofReading? fun s => (t.toList.isPrefixOf? s).map fun rest => ((), rest)

/-- Reads one of the given words and gives it. -/
def keyword (choices : List String) : Pattern String :=
  oneOf (choices.map fun word => (literal word).bind fun _ => Pattern.pure word)

/-- The texts that remain after zero or more characters of a class, the
longest remainder first. -/
def remainders (ok : Char → Bool) : List Char → List (List Char)
  | [] => [[]]
  | c :: rest => (c :: rest) :: if ok c then remainders ok rest else []

/-- Skips zero or more characters of a class, as many as possible first. -/
def skip (ok : Char → Bool) : Pattern Unit :=
  ofReadings fun s => (remainders ok s).reverse.map fun rest => ((), rest)

/-- Skips zero or more characters of a class, as few as possible first. -/
def skipFew (ok : Char → Bool) : Pattern Unit :=
  ofReadings fun s => (remainders ok s).map fun rest => ((), rest)

/-- Skips one or more characters of a class, as many as possible first. -/
def skip1 (ok : Char → Bool) : Pattern Unit :=
  (one ok).bind fun _ => skip ok

/-- Skips one or more characters of a class, as few as possible first. -/
def skipFew1 (ok : Char → Bool) : Pattern Unit :=
  (one ok).bind fun _ => skipFew ok

/-- Skips all blanks at the front, if there are any. This is enough wherever
the next part cannot start with a blank. -/
def blanks : Pattern Unit :=
  ofReading? fun s => some ((), trimStart s)

/-- Skips all blanks at the front, at least one. -/
def blanks1 : Pattern Unit :=
  (one isBlank).bind fun _ => blanks

/-- Skips blanks, as many as possible first, and can leave some of them to the
next part. -/
def gap : Pattern Unit :=
  skip isBlank

/-- Skips one or more blanks, as many as possible first, and can leave the
others to the next part. -/
def gap1 : Pattern Unit :=
  skip1 isBlank

/-- Any character within a line. -/
def inLine (c : Char) : Bool :=
  c != '\n'

/-- Any character at all. -/
def anything (_ : Char) : Bool :=
  true

/-- A character other than the given ones. -/
def noneOf (excluded : List Char) (c : Char) : Bool :=
  !excluded.contains c

/-- A run of one or more characters of a class, the longest first. -/
def run1 (ok : Char → Bool) : Pattern Span :=
  (skip1 ok).taken

/-- A run of one or more characters of a class, the shortest first. -/
def runFew1 (ok : Char → Bool) : Pattern Span :=
  (skipFew1 ok).taken

/-- A run of zero or more characters of a class, the longest first. -/
def run (ok : Char → Bool) : Pattern Span :=
  (skip ok).taken

end Pattern

end ClassAtlas.Text
