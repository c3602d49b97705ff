import LeastSquares.Proofs.Json.Numerals
import LeastSquares.Proofs.Json.Tokens

/-!
# Objects of scalars

A text that spells a number, a string, a truth value or null is read as just that. An object whose
members are such texts is read as their values under their names, in order.
-/
namespace LeastSquares.Json

/-! ### Scalars -/

/-- The text spells one token, which is a value by itself. A number must not be followed by what
could be taken for more of it. -/
structure Spells (text : List Char) (t : Token) (v : Json) : Prop where
  solid : ∃ c cs, text = c :: cs ∧ ¬ isBlank c
  token : ∀ rest, Spelling.Ends rest → token? (text ++ rest) = some (t, rest)
  value : ∀ frames, Reading.begin frames t = some ⟨.separator v, frames⟩

theorem spells_null : Spells "null".toList .null .null :=
  ⟨⟨'n', _, rfl, by decide⟩, fun _ _ => rfl, fun _ => rfl⟩

theorem spells_bool (b : Bool) : Spells (toString b).toList (.bool b) (.bool b) := by
  cases b with
  | false => exact ⟨⟨'f', _, rfl, by decide⟩, fun _ _ => rfl, fun _ => rfl⟩
  | true => exact ⟨⟨'t', _, rfl, by decide⟩, fun _ _ => rfl, fun _ => rfl⟩

theorem spells_string {name : String} (plain : ∀ c ∈ name.toList, IsPlain c) :
    Spells ('"' :: (name.toList ++ ['"'])) (.string (some name)) (.string (some name)) where
  solid := ⟨'"', _, rfl, by decide⟩
  token rest _ := by
    rw [List.cons_append, List.append_assoc]
    exact token?_string plain rest
  value _ := rfl

theorem spells_number {s : Spelling} (h : s.WellFormed) :
    Spells s.chars (.number s.numeral) (.number s.numeral) := by
  obtain ⟨c, cs, first, starts⟩ : ∃ c cs, s.chars = c :: cs ∧ StartsNumber c := by
    obtain ⟨c, cs, whole⟩ := List.exists_cons_of_ne_nil h.nonempty
    have digit : c.isDigit := h.whole c (whole ▸ List.mem_cons_self)
    unfold Spelling.chars Spelling.signChars
    split
    · exact ⟨'-', _, rfl, .inl rfl⟩
    · exact ⟨c, _, by rw [whole]; rfl, .inr digit⟩
  refine ⟨⟨c, cs, first, starts.solid⟩, fun rest ends => ?_, fun _ => rfl⟩
  have read := Spelling.numeral?_chars h ends
  rw [first] at read ⊢
  exact token?_number starts read

/-! ### Cutting objects -/

theorem Cut.scalar {text rest : List Char} {t : Token} {v : Json} {tokens : List Token}
    (h : Spells text t v) (ends : Spelling.Ends rest) (more : Cut rest tokens) :
    Cut (text ++ rest) (t :: tokens) := by
  obtain ⟨c, cs, rfl, solid⟩ := h.solid
  exact .token solid (h.token rest ends) more

theorem Cut.name {name : String} (plain : ∀ c ∈ name.toList, IsPlain c) {rest : List Char}
    {tokens : List Token} (more : Cut rest tokens) :
    Cut ('"' :: (name.toList ++ '"' :: rest)) (.string (some name) :: tokens) := by
  have token := token?_string plain rest
  rw [List.append_cons] at token ⊢
  exact .token (by decide) token more

/-- A member of an object: its name, the text of its value, and what that says. -/
structure Member where
  name : String
  text : List Char
  token : Token
  value : Json
  plain : ∀ c ∈ name.toList, IsPlain c
  spells : Spells text token value

namespace Member

/-- A name, a colon and the value, after blanks. -/
def line (m : Member) : List Char :=
  ' ' :: ' ' :: '"' :: (m.name.toList ++ '"' :: ':' :: ' ' :: m.text)

/-- The tokens of a member. -/
def tokens (m : Member) : List Token :=
  [.string (some m.name), .colon, m.token]

/-- What an object keeps of a member. -/
def entry (m : Member) : Option String × Json :=
  (some m.name, m.value)

end Member

theorem Cut.member (m : Member) {rest : List Char} {tokens : List Token}
    (ends : Spelling.Ends rest) (more : Cut rest tokens) :
    Cut (m.line ++ rest) (m.tokens ++ tokens) := by
  have value : Cut (' ' :: (m.text ++ rest)) (m.token :: tokens) :=
    (more.scalar m.spells ends).blank (by decide)
  have colon : Cut (':' :: ' ' :: (m.text ++ rest)) (.colon :: m.token :: tokens) :=
    .mark (by decide) rfl value
  have name := ((colon.name m.plain).blank (b := ' ') (by decide)).blank (b := ' ') (by decide)
  simpa [Member.line, Member.tokens] using name

/-- The lines of several members, separated by commas. -/
def lines : List Member → List Char
  | [] => []
  | [m] => m.line
  | m :: more => m.line ++ ',' :: '\n' :: lines more

/-- The tokens of the members after the first. -/
def laterTokens (ms : List Member) : List Token :=
  ms.flatMap fun m => .comma :: m.tokens

theorem Cut.members (m : Member) (ms : List Member) {rest : List Char} {tokens : List Token}
    (ends : Spelling.Ends rest) (more : Cut rest tokens) :
    Cut (lines (m :: ms) ++ rest) (m.tokens ++ (laterTokens ms ++ tokens)) := by
  induction ms generalizing m with
  | nil => exact .member m ends more
  | cons m' ms ih =>
    have later : Cut (',' :: '\n' :: (lines (m' :: ms) ++ rest))
        (.comma :: (m'.tokens ++ (laterTokens ms ++ tokens))) :=
      .mark (by decide) rfl ((ih m').blank (by decide))
    have comma : Spelling.Ends (',' :: '\n' :: (lines (m' :: ms) ++ rest)) := by
      rintro _ ⟨⟩
      decide
    have all := Cut.member m comma later
    simpa [lines, laterTokens] using all

/-- The text of an object, one line for each member. -/
def objectText (ms : List Member) : List Char :=
  '\x7b' :: '\n' :: (lines ms ++ ['\n', '\x7d'])

theorem cut_objectText (m : Member) (ms : List Member) : Cut (objectText (m :: ms))
    (.openObject :: (m.tokens ++ (laterTokens ms ++ [.closeObject]))) := by
  have close : Cut ['\n', '\x7d'] [.closeObject] :=
    (Cut.mark (by decide) rfl (.done (by simp))).blank (by decide)
  have ends : Spelling.Ends ['\n', '\x7d'] := by
    rintro _ ⟨⟩
    decide
  exact .mark (by decide) rfl ((Cut.members m ms ends close).blank (by decide))

/-! ### Reading objects -/

theorem foldlM_member (m : Member) {expected : Expectation}
    {members : List (Option String × Json)}
    (names : expected = .firstName members ∨ expected = .name members) (frames : List Frame) :
    m.tokens.foldlM Reading.next ⟨expected, frames⟩ =
      some ⟨.separator m.value, .object members (some m.name) :: frames⟩ := by
  have value : Reading.next ⟨.value, .object members (some m.name) :: frames⟩ m.token =
      some ⟨.separator m.value, .object members (some m.name) :: frames⟩ := m.spells.value _
  rcases names with rfl | rfl <;>
    simpa [Member.tokens, List.foldlM_cons, Reading.next] using value

/-- Each member that follows is added, and the object is complete where it is closed. -/
theorem foldlM_later (ms : List Member) (done : Json) (name : Option String)
    (members : List (Option String × Json)) (frames : List Frame) :
    (laterTokens ms ++ [Token.closeObject]).foldlM Reading.next
        ⟨.separator done, .object members name :: frames⟩ =
      some ⟨.separator (.object (((name, done) :: members).reverse ++ ms.map Member.entry)),
        frames⟩ := by
  induction ms generalizing done name members with
  | nil =>
    rw [List.map_nil, List.append_nil]
    rfl
  | cons m ms ih =>
    have comma : Reading.next ⟨.separator done, .object members name :: frames⟩ .comma =
        some ⟨.name ((name, done) :: members), frames⟩ := rfl
    have tokens : laterTokens (m :: ms) ++ [Token.closeObject] =
        .comma :: (m.tokens ++ (laterTokens ms ++ [.closeObject])) := by
      simp [laterTokens]
    rw [tokens, List.foldlM_cons, comma, Option.bind_eq_bind, Option.bind_some,
      List.foldlM_append, foldlM_member m (.inr rfl), Option.bind_eq_bind, Option.bind_some, ih,
      List.map_cons, List.reverse_cons (a := (some m.name, m.value)), List.append_assoc]
    rfl

/-- An object is read as its members. -/
theorem parse?_objectText {text : String} {m : Member} {ms : List Member}
    (written : text.toList = objectText (m :: ms)) :
    parse? text = some (.object ((m :: ms).map Member.entry)) := by
  have tokens : tokens? text = _ := tokens?_of_cut (written ▸ cut_objectText m ms)
  have opened : Reading.next ⟨.value, []⟩ .openObject = some ⟨.firstName [], []⟩ := rfl
  have read : (Token.openObject :: (m.tokens ++ (laterTokens ms ++ [.closeObject]))).foldlM
      Reading.next ⟨.value, []⟩ =
        some ⟨.separator (.object ((m :: ms).map Member.entry)), []⟩ := by
    rw [List.foldlM_cons, opened, Option.bind_eq_bind, Option.bind_some, List.foldlM_append,
      foldlM_member m (.inl rfl), Option.bind_eq_bind, Option.bind_some, foldlM_later]
    rfl
  rw [parse?, tokens, Option.bind_eq_bind, Option.bind_some, read]
  rfl

end LeastSquares.Json
