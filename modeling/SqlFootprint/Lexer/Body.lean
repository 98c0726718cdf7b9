import SqlFootprint.Lexer.Fault
import SqlFootprint.Text.Letter

/-!
# Bodies of strings, words and comments

Each scanner here starts after an opening delimiter and reads up to the closing one. It returns
the body and the characters after the delimiter. The lemmas `…_length` say that the rest is no
longer than the input, so a lexer that calls these scanners ends.
-/

namespace SqlFootprint.Lexer

/-- What a scanner of bodies returns: the body and the characters after it. -/
abbrev Body := List Char × List Char

/-- Put a character before a body. -/
def Body.cons (c : Char) (body : Body) : Body := (c :: body.1, body.2)

/-- The character that a backslash and a letter stand for in a plain string. -/
def backslashed : Char → Char
  | '0' => '\x00'
  | 'a' => '\x07'
  | 'b' => '\x08'
  | 'f' => '\x0c'
  | 'n' => '\n'
  | 'r' => '\r'
  | 't' => '\t'
  | 'Z' => '\x1a'
  | c => c

/-- The body of a string up to its closing quote; a doubled quote stands for itself. -/
def quotedBody? (quote : Char) (escapes : Bool) : List Char → Option Body
  | [] => none
  | [c] => if c = quote then some ([], []) else none
  | c :: d :: rest =>
    if c = quote then
      if d = quote then (quotedBody? quote escapes rest).map (.cons quote)
      else some ([], d :: rest)
    else if escapes && c == '\\' then
      (quotedBody? quote escapes rest).map (.cons (backslashed d))
    else (quotedBody? quote escapes (d :: rest)).map (.cons c)

/-- The text up to the first occurrence of a fence. -/
def fencedBody? (fence : List Char) : List Char → Option Body
  | [] => if fence.isEmpty then some ([], []) else none
  | c :: rest =>
    if fence.isPrefixOf (c :: rest) then some ([], (c :: rest).drop fence.length)
    else (fencedBody? fence rest).map (.cons c)

/-- The text of a block comment, opened `depth + 1` times. -/
def commentBody? (nested : Bool) (depth : Nat) : List Char → Option Body
  | '*' :: '/' :: rest =>
    match depth with
    | 0 => some ([], rest)
    | depth + 1 => (commentBody? nested depth rest).map fun body ↦ .cons '*' (.cons '/' body)
  | '/' :: '*' :: rest =>
    if nested then
      (commentBody? nested (depth + 1) rest).map fun body ↦ .cons '/' (.cons '*' body)
    else (commentBody? nested depth ('*' :: rest)).map (.cons '/')
  | c :: rest => (commentBody? nested depth rest).map (.cons c)
  | [] => none

/-- The text of a line comment with the character that ends it. -/
def lineBody (endsLine : Char → Bool) : List Char → Body
  | [] => ([], [])
  | c :: rest => if endsLine c then ([c], rest) else .cons c (lineBody endsLine rest)

/-- A character put before a body leaves the rest as it is. -/
theorem Body.length_of_map_cons {c : Char} {inner : Option Body} {body : Body} {n : Nat}
    (h : inner.map (.cons c) = some body) (hn : ∀ {b}, inner = some b → b.2.length ≤ n) :
    body.2.length ≤ n := by
  obtain ⟨b, hb, rfl⟩ := Option.map_eq_some_iff.1 h
  exact @hn b hb

theorem quotedBody?_length {quote : Char} {escapes : Bool} {cs : List Char} {body : Body}
    (h : quotedBody? quote escapes cs = some body) : body.2.length ≤ cs.length := by
  fun_induction quotedBody? quote escapes cs generalizing body with
  | case1 => cases h
  | case2 =>
    cases h
    exact Nat.zero_le _
  | case3 => cases h
  | case4 rest ih =>
    exact Nat.le_succ_of_le (Nat.le_succ_of_le (Body.length_of_map_cons h ih))
  | case5 =>
    cases h
    exact Nat.le_succ _
  | case6 _ _ rest _ _ ih =>
    exact Nat.le_succ_of_le (Nat.le_succ_of_le (Body.length_of_map_cons h ih))
  | case7 _ _ rest _ _ ih => exact Nat.le_succ_of_le (Body.length_of_map_cons h ih)

theorem fencedBody?_length {fence cs : List Char} {body : Body}
    (h : fencedBody? fence cs = some body) : body.2.length ≤ cs.length := by
  fun_induction fencedBody? fence cs generalizing body with
  | case1 =>
    cases h
    exact Nat.le_refl _
  | case2 => cases h
  | case3 c rest =>
    cases h
    exact (List.drop_suffix _ _).length_le
  | case4 _ rest _ ih => exact Nat.le_succ_of_le (Body.length_of_map_cons h ih)

theorem commentBody?_length {nested : Bool} {depth : Nat} {cs : List Char} {body : Body}
    (h : commentBody? nested depth cs = some body) : body.2.length ≤ cs.length := by
  fun_induction commentBody? nested depth cs generalizing body with
  | case1 rest =>
    cases h
    exact Nat.le_succ_of_le (Nat.le_succ _)
  | case2 rest depth ih =>
    obtain ⟨b, hb, rfl⟩ := Option.map_eq_some_iff.1 h
    exact Nat.le_succ_of_le (Nat.le_succ_of_le (@ih b hb))
  | case3 depth rest _ ih =>
    obtain ⟨b, hb, rfl⟩ := Option.map_eq_some_iff.1 h
    exact Nat.le_succ_of_le (Nat.le_succ_of_le (@ih b hb))
  | case4 depth rest _ ih => exact Nat.le_succ_of_le (Body.length_of_map_cons h ih)
  | case5 depth c rest _ _ ih => exact Nat.le_succ_of_le (Body.length_of_map_cons h ih)
  | case6 => cases h

theorem lineBody_length (endsLine : Char → Bool) (cs : List Char) :
    (lineBody endsLine cs).2.length ≤ cs.length := by
  fun_induction lineBody endsLine cs with
  | case1 => exact Nat.le_refl _
  | case2 c rest => exact Nat.le_succ _
  | case3 c rest _ ih => exact Nat.le_succ_of_le ih

end SqlFootprint.Lexer
