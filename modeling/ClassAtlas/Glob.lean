import ClassAtlas.Text.Basic

/-!
# Path patterns

In a pattern a question mark stands for one character, a star for any run of
characters, and brackets for one character of a set. Two stars stand for any
number of directories and have to be a part of their own. A path pattern is the
list of its parts, the empty ones included.
-/

namespace ClassAtlas.Glob

open ClassAtlas.Text

/-- A range of characters in a set; a single character is its own range. -/
abbrev CharRange := Char × Char

/-- An item of a pattern. -/
inductive Token where
  | exactly (c : Char)
  | anyChar
  | anyRun
  /-- Any number of directories. -/
  | anyDirectories
  /-- One character that is in the set, or one that is not. -/
  | oneOf (within : Bool) (ranges : List CharRange)
  deriving DecidableEq, Repr

/-- The ranges in the text between brackets. -/
def charRanges : List Char → List CharRange
  | a :: '-' :: b :: rest => (a, b) :: charRanges rest
  | c :: rest => (c, c) :: charRanges rest
  | [] => []

/-- The set at the front of a text whose opening bracket has been read, and the
text after it. The first character of a set never closes it. -/
def charSet? (s : List Char) : Option (Token × List Char) :=
  match s with
  | '!' :: first :: rest =>
    (cutAtFirst? ']' rest).map fun (more, after) =>
      (.oneOf false (charRanges (first :: more)), after)
  | '!' :: [] => none
  | first :: rest =>
    (cutAtFirst? ']' rest).map fun (more, after) =>
      (.oneOf true (charRanges (first :: more)), after)
  | [] => none

theorem length_cutAtFirst? {c : Char} {s before after : List Char}
    (h : cutAtFirst? c s = some (before, after)) : after.length < s.length := by
  induction s generalizing before with
  | nil => simp [cutAtFirst?] at h
  | cons d rest ih =>
    simp only [cutAtFirst?] at h
    split at h
    · simp at h
      simp [h.2]
    · obtain ⟨⟨before', after'⟩, hb, heq⟩ := Option.map_eq_some_iff.1 h
      obtain ⟨-, rfl⟩ := Prod.mk.inj heq
      exact Nat.lt_succ_of_lt (ih hb)

theorem length_charSet? {s after : List Char} {token : Token}
    (h : charSet? s = some (token, after)) : after.length < s.length := by
  unfold charSet? at h
  split at h
  · obtain ⟨⟨more, after'⟩, hc, heq⟩ := Option.map_eq_some_iff.1 h
    obtain ⟨-, rfl⟩ := Prod.mk.inj heq
    have := length_cutAtFirst? hc
    simp; omega
  · simp at h
  · obtain ⟨⟨more, after'⟩, hc, heq⟩ := Option.map_eq_some_iff.1 h
    obtain ⟨-, rfl⟩ := Prod.mk.inj heq
    have := length_cutAtFirst? hc
    simp; omega
  · simp at h

/-- The tokens of a pattern; `partStart` says whether a part starts here. There
are none if a set is not closed, or if more than one star stands elsewhere than
as a part of its own. -/
def tokensFrom? (partStart : Bool) (s : List Char) : Option (List Token) :=
  match s with
  | [] => some []
  | '?' :: rest => do return .anyChar :: (← tokensFrom? false rest)
  | '*' :: '*' :: rest =>
    match partStart, rest with
    | true, [] => some [.anyDirectories]
    | true, '/' :: more => do return .anyDirectories :: (← tokensFrom? true more)
    | _, _ => none
  | '*' :: rest => do return .anyRun :: (← tokensFrom? false rest)
  | '[' :: rest =>
    match _h : charSet? rest with
    | some (token, after) => do return token :: (← tokensFrom? false after)
    | none => none
  | c :: rest => do return .exactly c :: (← tokensFrom? (c == '/') rest)
termination_by s.length
decreasing_by
  all_goals simp
  · omega
  · have := length_charSet? _h
    omega

/-- The tokens of a whole pattern. -/
def tokens? (s : List Char) : Option (List Token) :=
  tokensFrom? true s

/-- The pattern that matches a text literally. -/
def escape (s : List Char) : List Char :=
  s.flatMap fun c =>
    if c == '?' || c == '*' || c == '[' || c == ']' then ['[', c, ']'] else [c]

/-- Whether a character satisfies a token that stands for one character. -/
def Token.takes (token : Token) (c : Char) : Bool :=
  match token with
  | exactly d => c == d
  | anyChar => true
  | oneOf within ranges => (ranges.any fun (lo, hi) => lo ≤ c && c ≤ hi) == within
  | anyRun | anyDirectories => false

/-- Whether a token matches some run at the front of a name such that `rest`
accepts what follows. -/
def runThen (rest : List Char → Bool) : List Char → Bool
  | [] => rest []
  | c :: name => rest (c :: name) || runThen rest name

/-- Whether a name matches the tokens of one part. -/
def nameMatches : List Token → List Char → Bool
  | [], name => name.isEmpty
  | .anyRun :: tokens, name => runThen (nameMatches tokens) name
  | .anyDirectories :: _, _ => false
  | _ :: _, [] => false
  | token :: tokens, c :: name => token.takes c && nameMatches tokens name

/-- The text that tokens stand for, if they stand for one text only. -/
def literal? (tokens : List Token) : Option (List Char) :=
  tokens.mapM fun
    | .exactly c => some c
    | _ => none

/-- A pattern for one part of a path. -/
inductive PartPattern where
  | anyDirectories
  /-- A part without anything that stands for several texts. -/
  | literal (text : List Char)
  /-- The tokens of any other part. -/
  | name (tokens : List Token)
  deriving DecidableEq, Repr

namespace PartPattern

/-- The pattern of a part. -/
def ofText? (s : List Char) : Option PartPattern :=
  (tokens? s).map fun tokens =>
    if tokens = [.anyDirectories] then .anyDirectories
    else
      match literal? tokens with
      | some text => .literal text
      | none => .name tokens

/-- Whether a name matches a part. -/
def takes : PartPattern → List Char → Bool
  | anyDirectories, _ => true
  | literal text, given => given == text
  | name tokens, given => nameMatches tokens given

end PartPattern

/-- A pattern for paths. -/
structure PathPattern where
  parts : List PartPattern
  /-- Whether only directories are meant: the pattern ends in a slash. -/
  directoriesOnly : Bool
  deriving DecidableEq, Repr

namespace PathPattern

/-- The texts between the slashes of a pattern. A slash at its end does not
start a part. -/
def partTexts (s : List Char) : List (List Char) :=
  let texts := s.splitOn '/'
  if texts.getLast? = some [] then texts.dropLast else texts

/-- The path pattern of a text, if the text and each of its parts are patterns. -/
def ofText? (s : List Char) : Option PathPattern := do
  let _ ← tokens? s
  let parts ← (partTexts s).mapM PartPattern.ofText?
  return { parts, directoriesOnly := s.getLast? = some '/' }

end PathPattern

end ClassAtlas.Glob
