import ScriptOutline.Project.Glob.Token

/-!
# Reading glob patterns

A pattern is read from the left. The innermost braces that are still open are
kept on a stack, each with what stands before them and the branches that are
complete.
-/

namespace ScriptOutline.Glob

/-! ## Classes -/

inductive ClassReading where
  | closed (ranges : List (Char × Char)) (rest : List Char)
  | unclosed
  /-- A range runs backwards. -/
  | backwards

/-- Reads a class on behind the range read last; the ranges before it are in
reverse. A hyphen at the end stands for itself. -/
def readRanges (before : List (Char × Char)) (range : Char × Char) (inRange : Bool) :
    List Char → ClassReading
  | [] => .unclosed
  | c :: text =>
      if c = ']' then
        .closed (if inRange then ('-', '-') :: range :: before else range :: before) text
      else if inRange then
        if c < range.1 then .backwards else readRanges before (range.1, c) false text
      else if c = '-' then readRanges before range true text
      else readRanges (range :: before) (c, c) false text

/-- Reads a class from its first character. A closing bracket or a hyphen there
stands for itself. -/
def readClass : List Char → ClassReading
  | [] => .unclosed
  | first :: text => readRanges [] (first, first) false text

def splitNegation : List Char → Bool × List Char
  | '!' :: text => (true, text)
  | '^' :: text => (true, text)
  | text => (false, text)

theorem readRanges_rest_length {before ranges : List (Char × Char)} {range : Char × Char}
    {inRange : Bool} {text rest : List Char}
    (h : readRanges before range inRange text = .closed ranges rest) :
    rest.length < text.length := by
  induction text generalizing before range inRange with
  | nil => cases h
  | cons c text ih =>
      rw [readRanges] at h
      split at h
      · cases h
        exact Nat.lt_succ_self _
      · split at h
        · split at h
          · cases h
          · exact Nat.lt_succ_of_lt (ih h)
        · split at h
          · exact Nat.lt_succ_of_lt (ih h)
          · exact Nat.lt_succ_of_lt (ih h)

theorem readClass_rest_length {text rest : List Char} {ranges : List (Char × Char)}
    (h : readClass text = .closed ranges rest) : rest.length < text.length := by
  cases text with
  | nil => cases h
  | cons first text => exact Nat.lt_succ_of_lt (readRanges_rest_length h)

theorem splitNegation_length_le (text : List Char) :
    (splitNegation text).2.length ≤ text.length := by
  unfold splitNegation
  split <;> simp

/-! ## Patterns -/

/-- A group of braces that is still open: what stands before it and the branches
that are complete, both in reverse. -/
structure Group where
  before : List Token
  branches : List (List Token)

def Group.addBranch (group : Group) (branch : List Token) : Group :=
  { group with branches := branch.reverse :: group.branches }

/-- What stands before a closed group and the group itself, in reverse. -/
def Group.close (group : Group) (branch : List Token) : List Token :=
  .either (group.addBranch branch).branches.reverse :: group.before

/-- The token read last, a slash, gives way to a token that includes it. -/
def absorbSlash (token : Token) : List Token → List Token
  | .anyDirectories :: rest => .anyDirectories :: rest
  | .inside :: rest => .inside :: rest
  | _ :: rest => token :: rest
  | [] => [token]

/-- Where the reading of a pattern stands: the tokens of the branch that is being
read in reverse, the character read last, and the text to come. -/
structure Cursor where
  branch : List Token
  previous : Option Char
  text : List Char

/-- Reads on behind two stars. They stand for directories only if they are the
whole of a name; elsewhere they are two single stars. -/
def readStars (inGroup : Bool) (here : Cursor) : Cursor :=
  let plain : Cursor :=
    { here with branch := .anyRun :: .anyRun :: here.branch, previous := some '*' }
  if here.branch.isEmpty then
    match here.text with
    | [] => { here with branch := [.anyDirectories] }
    | '/' :: rest => { branch := [.anyDirectories], previous := some '/', text := rest }
    | _ => plain
  else if here.previous = some '/' ∨
      (inGroup ∧ (here.previous = some ',' ∨ here.previous = some '\x7b')) then
    match here.text with
    | [] => { here with branch := absorbSlash .inside here.branch }
    | '/' :: rest =>
        { branch := absorbSlash .between here.branch, previous := some '/', text := rest }
    | c :: _ =>
        if inGroup ∧ (c = ',' ∨ c = '\x7d') then
          { here with branch := absorbSlash .inside here.branch, previous := some '*' }
        else plain
  else plain

theorem readStars_length_le (inGroup : Bool) (here : Cursor) :
    (readStars inGroup here).text.length ≤ here.text.length := by
  unfold readStars
  grind

/-- Reads a pattern. `groups` are the braces around the branch that is being read,
the innermost first. There is no pattern if a brace has no partner, a range runs
backwards or a backslash escapes nothing. A bracket without a partner stands for
itself, and so do all brackets behind it: `plainBrackets` tells that there was
one. -/
def read? (groups : List Group) (plainBrackets : Bool) (branch : List Token)
    (previous : Option Char) : List Char → Option (List Token)
  | [] => if groups.isEmpty then some branch.reverse else none
  | '?' :: text => read? groups plainBrackets (.anyByte :: branch) (some '?') text
  | '*' :: '*' :: text =>
      let next := readStars (!groups.isEmpty) { branch, previous, text }
      read? groups plainBrackets next.branch next.previous next.text
  | '*' :: text => read? groups plainBrackets (.anyRun :: branch) (some '*') text
  | '[' :: text =>
      if plainBrackets then read? groups true (.literal '[' :: branch) (some '[') text
      else
        match _h : readClass (splitNegation text).2 with
        | .closed ranges rest =>
            read? groups false (.oneOf (splitNegation text).1 ranges :: branch) (some ']') rest
        | .unclosed => read? groups true (.literal '[' :: branch) (some '[') text
        | .backwards => none
  | '\\' :: c :: text => read? groups plainBrackets (.literal c :: branch) (some c) text
  | '\\' :: [] => none
  | '\x7b' :: text =>
      read? ({ before := branch, branches := [] } :: groups) plainBrackets [] (some '\x7b') text
  | '\x7d' :: text =>
      match groups with
      | group :: outer => read? outer plainBrackets (group.close branch) (some '\x7d') text
      | [] => none
  | ',' :: text =>
      match groups with
      | group :: outer =>
          read? (group.addBranch branch :: outer) plainBrackets [] (some ',') text
      | [] => read? [] plainBrackets (.literal ',' :: branch) (some ',') text
  | c :: text => read? groups plainBrackets (.literal c :: branch) (some c) text
termination_by text => text.length
decreasing_by
  · simp
  · have := readStars_length_le (!groups.isEmpty) { branch, previous, text }
    simp only [List.length_cons] at *
    omega
  · simp
  · simp
  · have := readClass_rest_length _h
    have := splitNegation_length_le text
    simp only [List.length_cons]
    omega
  all_goals
    simp only [List.length_cons]
    omega

def ofText? (text : List Char) : Option (List Token) := read? [] false [] none text

end ScriptOutline.Glob
