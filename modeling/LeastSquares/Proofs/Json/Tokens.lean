import Mathlib.Data.List.Basic
import LeastSquares.Json.Token

/-!
# Texts and their tokens

A text that is put together from the spellings of tokens, with blanks wherever one likes, is cut
into just those tokens, provided that no spelling runs on into what follows it. Only numbers can.
-/
namespace LeastSquares.Json

/-! ### Cutting -/

/-- The text consists of spellings of the tokens, and of blanks between them. -/
inductive Cut : List Char → List Token → Prop
  | done {blanks : List Char} (blank : ∀ b ∈ blanks, isBlank b) : Cut blanks []
  | next {blanks spelling rest : List Char} {c : Char} {t : Token} {tokens : List Token}
      (blank : ∀ b ∈ blanks, isBlank b) (solid : ¬ isBlank c)
      (token : token? (c :: (spelling ++ rest)) = some (t, rest)) (more : Cut rest tokens) :
      Cut (blanks ++ c :: (spelling ++ rest)) (t :: tokens)

theorem Cut.length_le {text : List Char} {tokens : List Token} (h : Cut text tokens) :
    tokens.length ≤ text.length := by
  induction h with
  | done => exact Nat.zero_le _
  | next _ _ _ _ ih =>
    simp only [List.length_append, List.length_cons]
    omega

theorem Cut.blank {b : Char} (blank : isBlank b) {text : List Char} {tokens : List Token}
    (h : Cut text tokens) : Cut (b :: text) tokens := by
  cases h with
  | done all => exact .done (List.forall_mem_cons.mpr ⟨blank, all⟩)
  | next all solid token more =>
    exact .next (List.forall_mem_cons.mpr ⟨blank, all⟩) solid token more

theorem Cut.token {c : Char} {spelling rest : List Char} {t : Token} {tokens : List Token}
    (solid : ¬ isBlank c) (token : token? (c :: (spelling ++ rest)) = some (t, rest))
    (more : Cut rest tokens) : Cut (c :: (spelling ++ rest)) (t :: tokens) :=
  @Cut.next [] spelling rest c t tokens nofun solid token more

/-- A token of one character. -/
theorem Cut.mark {c : Char} {rest : List Char} {t : Token} {tokens : List Token}
    (solid : ¬ isBlank c) (token : token? (c :: rest) = some (t, rest)) (more : Cut rest tokens) :
    Cut (c :: rest) (t :: tokens) :=
  @Cut.token c [] rest t tokens solid token more

theorem dropWhile_blanks {blanks : List Char} (blank : ∀ b ∈ blanks, isBlank b)
    (text : List Char) : (blanks ++ text).dropWhile isBlank = text.dropWhile isBlank :=
  List.dropWhile_append_of_pos blank

theorem tokensUpTo_of_cut {text : List Char} {tokens : List Token} (h : Cut text tokens)
    (done : List Token) {more : Nat} (enough : tokens.length ≤ more) :
    tokensUpTo done more text = some (done.reverse ++ tokens) := by
  induction h generalizing done more with
  | done blank =>
    have nothing := dropWhile_blanks blank []
    rw [List.append_nil, List.dropWhile_nil] at nothing
    unfold tokensUpTo
    rw [nothing, List.append_nil]
  | @next blanks spelling rest c t tokens blank solid token _ ih =>
    obtain ⟨more, rfl⟩ := Nat.exists_eq_add_of_le' (Nat.le_of_add_left_le enough)
    have start : (blanks ++ c :: (spelling ++ rest)).dropWhile isBlank =
        c :: (spelling ++ rest) := by
      rw [dropWhile_blanks blank, List.dropWhile_cons_of_neg solid]
    unfold tokensUpTo
    rw [start]
    dsimp only
    rw [token]
    dsimp only
    rw [ih (t :: done) (Nat.le_of_succ_le_succ enough), List.reverse_cons, List.append_assoc]
    rfl

theorem tokens?_of_cut {text : String} {tokens : List Token} (h : Cut text.toList tokens) :
    tokens? text = some tokens :=
  tokensUpTo_of_cut h [] h.length_le

/-! ### Strings -/

/-- Stands for itself in a string. -/
def IsPlain (c : Char) : Prop :=
  c ≠ '"' ∧ c ≠ '\\' ∧ 0x20 ≤ c.toNat

instance : DecidablePred IsPlain :=
  fun _ => inferInstanceAs (Decidable (_ ∧ _ ∧ _))

theorem stringUnits?_plain {cs : List Char} (plain : ∀ c ∈ cs, IsPlain c) (units : List Nat)
    (rest : List Char) : stringUnits? units (cs ++ '"' :: rest) =
      some ((cs.map Char.toNat).reverse ++ units, rest) := by
  induction cs generalizing units with
  | nil => rfl
  | cons c cs ih =>
    obtain ⟨⟨noQuote, noEscape, printable⟩, later⟩ := List.forall_mem_cons.mp plain
    have step : stringUnits? units (c :: (cs ++ '"' :: rest)) =
        stringUnits? (c.toNat :: units) (cs ++ '"' :: rest) := by
      rw [stringUnits?.eq_def]
      split
      next first => exact absurd (List.head_eq_of_cons_eq first) noQuote
      next first => exact absurd (List.head_eq_of_cons_eq first) noEscape
      next first => exact absurd (List.head_eq_of_cons_eq first) noEscape
      next c' cs' _ _ _ first =>
        obtain ⟨rfl, rfl⟩ := List.cons.inj first
        rw [if_neg (Nat.not_lt.mpr printable)]
      next first => cases first
    rw [List.cons_append, step, ih later, List.map_cons, List.reverse_cons, List.append_assoc]
    rfl

theorem not_isHighSurrogate (c : Char) : isHighSurrogate c.toNat = false := by
  have valid : c.toNat < 0xD800 ∨ 0xDFFF < c.toNat ∧ c.toNat < 0x110000 := c.valid
  grind [isHighSurrogate]

theorem not_isLowSurrogate (c : Char) : isLowSurrogate c.toNat = false := by
  have valid : c.toNat < 0xD800 ∨ 0xDFFF < c.toNat ∧ c.toNat < 0x110000 := c.valid
  grind [isLowSurrogate]

theorem characters?_toNat (cs done : List Char) :
    characters? done (cs.map Char.toNat) = some (done.reverse ++ cs) := by
  induction cs generalizing done with
  | nil =>
    rw [List.append_nil]
    rfl
  | cons c cs ih =>
    cases cs with
    | nil =>
      simp [characters?, not_isHighSurrogate, not_isLowSurrogate]
    | cons d cs =>
      have step : characters? done ((c :: d :: cs).map Char.toNat) =
          characters? (c :: done) ((d :: cs).map Char.toNat) := by
        simp [characters?, not_isHighSurrogate, not_isLowSurrogate]
      rw [step, ih, List.reverse_cons, List.append_assoc]
      rfl

theorem token?_string {name : String} (plain : ∀ c ∈ name.toList, IsPlain c) (rest : List Char) :
    token? ('"' :: (name.toList ++ '"' :: rest)) = some (.string (some name), rest) := by
  have units := stringUnits?_plain plain [] rest
  rw [List.append_nil] at units
  change (stringUnits? [] (name.toList ++ '"' :: rest)).map _ = _
  rw [units, Option.map_some]
  dsimp only
  rw [List.reverse_reverse, characters?_toNat]
  exact congrArg some (Prod.ext (congrArg (Token.string ∘ some) String.ofList_toList) rfl)

/-! ### Numbers -/

/-- Starts a number, and no other token. -/
def StartsNumber (c : Char) : Prop :=
  c = '-' ∨ c.isDigit

instance : DecidablePred StartsNumber :=
  fun _ => inferInstanceAs (Decidable (_ ∨ _))

theorem StartsNumber.solid {c : Char} (h : StartsNumber c) : ¬ isBlank c := by
  simp only [isBlank, Bool.or_eq_true, decide_eq_true_iff]
  rintro (((rfl | rfl) | rfl) | rfl) <;> exact absurd h (by decide)

theorem token?_number {cs rest : List Char} {c : Char} {n : Numeral} (starts : StartsNumber c)
    (read : numeral? (c :: cs) = some (n, rest)) : token? (c :: cs) = some (.number n, rest) := by
  unfold token?
  split
  all_goals
    first
    | next first => exact absurd (List.head_eq_of_cons_eq first ▸ starts) (by decide)
    | rw [read, Option.map_some]

end LeastSquares.Json
