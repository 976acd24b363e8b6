import CarbonRuntime.Records.Check

/-!
# What PostgreSQL reads

The lexical grammar of PostgreSQL 17, with `standard_conforming_strings` on, as far as it says where
comments, string constants, quoted identifiers and words are. Units beyond ASCII are letters of an
identifier, and after its first letter a dollar sign is too. A comment to the end of the line ends at
a line feed or a carriage return. In an escape string a backslash takes the next unit with it, and a
string that follows it after white space with a line break goes on with it. A text in which something
is not closed is read up to there.

A word directly behind the digits of a number is read with it, where PostgreSQL refuses the text.

**Results.** `lex_text`: the tokens are the text, cut up.
-/

open CarbonRuntime.Core Utf16

namespace CarbonRuntime.Records

/-- A unit beyond ASCII. -/
def isHighUnit (u : UInt16) : Bool := 0x80 ≤ u

def identStart (u : UInt16) : Bool := isLetter u || isHighUnit u

/-- What goes on in a name between dollar signs. -/
def tagMore (u : UInt16) : Bool := identStart u || isDigit u

def identMore (u : UInt16) : Bool := tagMore u || u = chr '$'

/-- White space: a tab, a line break, a vertical tab, a form feed, a space. -/
def isBlank (u : UInt16) : Bool := (0x9 ≤ u && u ≤ 0xd) || u = chr ' '

def isBreak (u : UInt16) : Bool := u = lf || u = cr

inductive Token
  | space (u : UInt16)
  | lineComment (t : Text)
  | blockComment (t : Text)
  /-- With its quotes, and an `E` in front where it has one. -/
  | string (escapes : Bool) (t : Text)
  /-- A quoted identifier, with its quotes. -/
  | quoted (t : Text)
  /-- The tag, and the rest with the tag at the end. -/
  | dollar (tag body : Text)
  | word (t : Text)
  | number (t : Text)
  | other (u : UInt16)
  /-- What is not closed. -/
  | openBlock (t : Text)
  | openString (escapes : Bool) (t : Text)
  | openQuoted (t : Text)
  | openDollar (tag t : Text)
deriving DecidableEq

def Token.text : Token → Text
  | space u | other u => [u]
  | lineComment t | blockComment t | string _ t | quoted t | word t | number t => t
  | openBlock t | openString _ t | openQuoted t => t
  | dollar tag body | openDollar tag body => tag ++ body

/-- Up to the quote that closes an escape string. -/
def closeEscaped : Text → Option (Text × Text)
  | [] => none
  | [u] => if u = chr '\'' then some ([u], []) else none
  | u :: v :: t =>
    if u = chr '\\' then (closeEscaped t).map fun r => (u :: v :: r.1, r.2)
    else if u = chr '\'' then
      if v = chr '\'' then (closeEscaped t).map fun r => (u :: v :: r.1, r.2)
      else some ([u], v :: t)
    else (closeEscaped (v :: t)).map fun r => (u :: r.1, r.2)

/-- Where an escape string stands before, with nothing but white space and comments behind it, and
whether there is a line break in that. -/
abbrev Pending := Option Bool

def Pending.after (p : Pending) : Token → Pending
  | .space u => p.map (· || isBreak u)
  | .lineComment _ => p
  | .string true _ => some false
  | _ => none

/-- A string behind its first quote and what stands before that. -/
def stringToken (escapes : Bool) (front t : Text) : Token × Text :=
  match (if escapes then closeEscaped t else closeQuote (chr '\'') t) with
  | some (body, rest) => (.string escapes (front ++ body), rest)
  | none => (.openString escapes (front ++ t), [])

/-- The next token of a text that begins with `u`. -/
def token (p : Pending) (u : UInt16) (t : Text) : Token × Text :=
  if isBlank u then (.space u, t)
  else if u = chr '-' ∧ t.head? = some (chr '-') then
    (.lineComment ((u :: t).takeWhile (!isBreak ·)), (u :: t).dropWhile (!isBreak ·))
  else if u = chr '/' ∧ t.head? = some (chr '*') then
    match closeBlock 1 t.tail with
    | some (body, rest) => (.blockComment (u :: chr '*' :: body), rest)
    | none => (.openBlock (u :: t), [])
  else if u = chr '\'' then stringToken (p = some true) [u] t
  else if (u = chr 'E' ∨ u = chr 'e') ∧ t.head? = some (chr '\'') then
    stringToken true [u, chr '\''] t.tail
  else if u = chr '"' then
    match closeQuote u t with
    | some (body, rest) => (.quoted (u :: body), rest)
    | none => (.openQuoted (u :: t), [])
  else if identStart u then
    (.word ((u :: t).takeWhile identMore), (u :: t).dropWhile identMore)
  else if isDigit u then
    (.number ((u :: t).takeWhile tagMore), (u :: t).dropWhile tagMore)
  else
    match dollarTag identStart tagMore (u :: t) with
    | some tag =>
      match closeTag tag ((u :: t).drop tag.length) with
      | some (body, rest) => (.dollar tag body, rest)
      | none => (.openDollar tag ((u :: t).drop tag.length), [])
    | none => (.other u, t)

/-- The tokens of a text, at most so many. -/
def lexFrom : Nat → Pending → Text → List Token
  | 0, _, _ => []
  | _ + 1, _, [] => []
  | rounds + 1, p, u :: t =>
    (token p u t).1 :: lexFrom rounds (p.after (token p u t).1) (token p u t).2

/-- The tokens of a text. -/
def lex (t : Text) : List Token := lexFrom t.length none t

/-! ## The tokens are the text -/

variable {t rest body : Text} {q u : UInt16}

theorem closeQuote_some (h : closeQuote q t = some (body, rest)) :
    t = body ++ rest ∧ ∃ inner, body = inner ++ [q] := by
  fun_induction closeQuote q t generalizing body rest with
  | case1 => cases h
  | case2 =>
    obtain ⟨rfl, rfl⟩ := Prod.mk.inj (Option.some.inj h)
    exact ⟨rfl, [], rfl⟩
  | case3 u hu => cases h
  | case4 t ih =>
    obtain ⟨⟨b, r⟩, hr, he⟩ := Option.map_eq_some_iff.1 h
    obtain ⟨rfl, rfl⟩ := Prod.mk.inj he
    obtain ⟨ht, inner, hi⟩ := ih hr
    exact ⟨by rw [ht]; rfl, q :: q :: inner, by rw [hi]; rfl⟩
  | case5 v t hv =>
    obtain ⟨rfl, rfl⟩ := Prod.mk.inj (Option.some.inj h)
    exact ⟨rfl, [], rfl⟩
  | case6 u v t hu ih =>
    obtain ⟨⟨b, r⟩, hr, he⟩ := Option.map_eq_some_iff.1 h
    obtain ⟨rfl, rfl⟩ := Prod.mk.inj he
    obtain ⟨ht, inner, hi⟩ := ih hr
    exact ⟨by rw [ht]; rfl, u :: inner, by rw [hi]; rfl⟩

theorem closeEscaped_some (h : closeEscaped t = some (body, rest)) : t = body ++ rest := by
  fun_induction closeEscaped t generalizing body rest with
  | case1 => cases h
  | case2 =>
    obtain ⟨rfl, rfl⟩ := Prod.mk.inj (Option.some.inj h)
    rfl
  | case3 u hu => cases h
  | case4 v t ih =>
    obtain ⟨⟨b, r⟩, hr, he⟩ := Option.map_eq_some_iff.1 h
    obtain ⟨rfl, rfl⟩ := Prod.mk.inj he
    rw [ih hr]
    rfl
  | case5 t hq ih =>
    obtain ⟨⟨b, r⟩, hr, he⟩ := Option.map_eq_some_iff.1 h
    obtain ⟨rfl, rfl⟩ := Prod.mk.inj he
    rw [ih hr]
    rfl
  | case6 v t hq hv =>
    obtain ⟨rfl, rfl⟩ := Prod.mk.inj (Option.some.inj h)
    rfl
  | case7 u v t hb hq ih =>
    obtain ⟨⟨b, r⟩, hr, he⟩ := Option.map_eq_some_iff.1 h
    obtain ⟨rfl, rfl⟩ := Prod.mk.inj he
    rw [ih hr]
    rfl

theorem closeBlock_some {depth : Nat} (h : closeBlock depth t = some (body, rest)) :
    t = body ++ rest := by
  fun_induction closeBlock depth t generalizing body rest with
  | case1 =>
    obtain ⟨rfl, rfl⟩ := Prod.mk.inj (Option.some.inj h)
    rfl
  | case2 => cases h
  | case3 => cases h
  | case4 depth u v t hu ih =>
    obtain ⟨⟨b, r⟩, hr, he⟩ := Option.map_eq_some_iff.1 h
    obtain ⟨rfl, rfl⟩ := Prod.mk.inj he
    rw [ih hr]
    rfl
  | case5 depth u v t hu hv ih =>
    obtain ⟨⟨b, r⟩, hr, he⟩ := Option.map_eq_some_iff.1 h
    obtain ⟨rfl, rfl⟩ := Prod.mk.inj he
    rw [ih hr]
    rfl
  | case6 depth u v t hu hv ih =>
    obtain ⟨⟨b, r⟩, hr, he⟩ := Option.map_eq_some_iff.1 h
    obtain ⟨rfl, rfl⟩ := Prod.mk.inj he
    rw [ih hr]
    rfl

theorem closeTag_some {tag : Text} (h : closeTag tag t = some (body, rest)) : t = body ++ rest := by
  fun_induction closeTag tag t generalizing body rest with
  | case1 => cases h
  | case2 u t r hr =>
    obtain ⟨rfl, rfl⟩ := Prod.mk.inj (Option.some.inj h)
    obtain ⟨p, hp, he⟩ := List.dropPrefix?_eq_some_iff.1 hr
    rw [hp, eq_of_beq he]
  | case3 u t hr ih =>
    obtain ⟨⟨b, r⟩, hr, he⟩ := Option.map_eq_some_iff.1 h
    obtain ⟨rfl, rfl⟩ := Prod.mk.inj he
    rw [ih hr]
    rfl

theorem dollarTag_some {start more : UInt16 → Bool} {tag : Text}
    (h : dollarTag start more t = some tag) : ∃ rest, t = tag ++ rest ∧ tag ≠ [] := by
  unfold dollarTag at h
  split at h
  · cases h
  · rename_i u t
    obtain ⟨⟨hu, -, hd⟩, h⟩ := Option.ite_none_right_eq_some.1 h
    obtain rfl := Option.some.inj h
    have hsplit := List.takeWhile_append_dropWhile (p := more) (l := t)
    have hdrop : t.drop (t.takeWhile more).length = t.dropWhile more := by
      have := congrArg (List.drop (t.takeWhile more).length) hsplit
      rw [List.drop_left] at this
      exact this.symm
    rw [hdrop] at hd
    cases hr : t.dropWhile more with
    | nil => rw [hr] at hd; cases hd
    | cons v rest =>
      rw [hr] at hd hsplit
      obtain rfl := Option.some.inj hd
      refine ⟨rest, ?_, List.append_ne_nil_of_right_ne_nil _ (List.cons_ne_nil _ _)⟩
      conv_lhs => rw [← hsplit]
      simp

theorem stringToken_text {escapes : Bool} {front : Text} :
    (stringToken escapes front t).1.text ++ (stringToken escapes front t).2 = front ++ t := by
  unfold stringToken
  split
  · rename_i body rest h
    have : t = body ++ rest := by
      cases escapes with
      | true => exact closeEscaped_some h
      | false => exact (closeQuote_some h).1
    rw [this]
    simp [Token.text]
  · simp [Token.text]

/-- A token is taken off the front. -/
theorem token_text (p : Pending) (u : UInt16) (t : Text) :
    (token p u t).1.text ++ (token p u t).2 = u :: t := by
  have hhead : ∀ {c}, t.head? = some c → t = c :: t.tail := by
    intro c hc
    cases t with
    | nil => cases hc
    | cons v t => rw [Option.some.inj hc]; rfl
  unfold token
  split_ifs with h1 h2 h3 h4 h5 h6 h7 h8
  · rfl
  · exact List.takeWhile_append_dropWhile
  · split
    · rename_i body rest h
      conv_rhs => rw [hhead h3.2, closeBlock_some h]
      rfl
    · simp [Token.text]
  · exact stringToken_text
  · rw [stringToken_text]
    conv_rhs => rw [hhead h5.2]
    rfl
  · split
    · rename_i body rest h
      conv_rhs => rw [(closeQuote_some h).1]
      rfl
    · simp [Token.text]
  · exact List.takeWhile_append_dropWhile
  · exact List.takeWhile_append_dropWhile
  · split
    · rename_i tag h
      obtain ⟨rest, ht, -⟩ := dollarTag_some h
      have hd : (u :: t).drop tag.length = rest := by rw [ht, List.drop_left]
      rw [hd]
      split
      · rename_i body rest' hb
        rw [ht, closeTag_some hb]
        simp [Token.text]
      · rw [ht]
        simp [Token.text]
    · rfl

/-- A token has a first unit. -/
theorem token_ne (p : Pending) (u : UInt16) (t : Text) : (token p u t).1.text ≠ [] := by
  have hstring : ∀ (escapes : Bool) (v : UInt16) (front t : Text),
      (stringToken escapes (v :: front) t).1.text ≠ [] := by
    intro escapes v front t
    unfold stringToken
    split <;> exact List.cons_ne_nil _ _
  have htake : ∀ more : UInt16 → Bool, more u → (u :: t).takeWhile more ≠ [] := by
    intro more hu
    rw [List.takeWhile_cons_of_pos hu]
    exact List.cons_ne_nil _ _
  unfold token
  split_ifs with h1 h2 h3 h4 h5 h6 h7 h8
  · exact List.cons_ne_nil _ _
  · exact htake (!isBreak ·) (by rw [h2.1]; decide)
  · split <;> exact List.cons_ne_nil _ _
  · exact hstring _ _ _ _
  · exact hstring _ _ _ _
  · split <;> exact List.cons_ne_nil _ _
  · exact htake _ (by simp [identMore, tagMore, h7])
  · exact htake _ (by simp [tagMore, h8])
  · split
    · rename_i tag h
      obtain ⟨rest, -, hne⟩ := dollarTag_some h
      split <;> exact List.append_ne_nil_of_left_ne_nil hne _
    · exact List.cons_ne_nil _ _

theorem token_length (p : Pending) (u : UInt16) (t : Text) : (token p u t).2.length ≤ t.length := by
  have h := congrArg List.length (token_text p u t)
  have hpos := List.length_pos_iff.2 (token_ne p u t)
  simp only [List.length_append, List.length_cons] at h
  omega

theorem lexFrom_text (n : Nat) (p : Pending) (h : t.length ≤ n) :
    (lexFrom n p t).flatMap Token.text = t := by
  induction n generalizing p t with
  | zero => rw [List.length_eq_zero_iff.1 (Nat.le_zero.1 h)]; rfl
  | succ n ih =>
    cases t with
    | nil => rfl
    | cons u t =>
      have hrest := token_length p u t
      simp only [List.length_cons] at h
      simp only [lexFrom, List.flatMap_cons]
      rw [ih _ (by omega), token_text]

/-- Nothing of the text is left out, and nothing put in. -/
theorem lex_text (t : Text) : (lex t).flatMap Token.text = t := lexFrom_text _ none (Nat.le_refl _)

end CarbonRuntime.Records
