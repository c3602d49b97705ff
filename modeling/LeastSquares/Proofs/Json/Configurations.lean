import LeastSquares.Proofs.Json.Brief
import LeastSquares.Json.Records

/-!
# Configurations written and read back

The text of a configuration is an object with a member for each field, each of which is read back
by itself. Counts, the scaling and the flag are read as they were; a double is read as what its
shortest digits make of it, which need not be the same double. So a configuration is read back from
its text just if each of its doubles is.
-/
namespace LeastSquares

open Json Double

namespace Config

/-! ### Fields -/

/-- What the text of a field of `c` makes of a configuration it is read into. -/
def rereadField (c : Config Float) (f : Field) (into : Config Float) : Option (Config Float) :=
  match f with
  | .ftol => (reread c.ftol).map fun x => { into with ftol := x }
  | .xtol => (reread c.xtol).map fun x => { into with xtol := x }
  | .gtol => (reread c.gtol).map fun x => { into with gtol := x }
  | .maxfev => some { into with maxfev := c.maxfev }
  | .epsfcn => (reread c.epsfcn).map fun x => { into with epsfcn := x }
  | .factor => (reread c.factor).map fun x => { into with factor := x }
  | .scaling => some { into with scaling := c.scaling }
  | .calcCovariance => some { into with calcCovariance := c.calcCovariance }

theorem unsigned?_ofInt {k : Nat} (fits : k < UInt64.size) :
    (Json.number (Spelling.ofInt k).numeral).unsigned? = some k := by
  rw [unsigned?, Spelling.toInt?_ofInt, Option.bind_eq_bind, Option.bind_some,
    if_pos ⟨Int.natCast_nonneg k, Int.ofNat_lt.mpr fits⟩, Int.toNat_natCast]

theorem scaling_name (s : Scaling) : (∀ c ∈ s.name.toList, IsPlain c) ∧
    (Json.string (some s.name)).unitName?.bind Scaling.ofName? = some s := by
  cases s with
  | auto => exact ⟨by simp [Scaling.name, IsPlain], rfl⟩
  | explicit => exact ⟨by simp [Scaling.name, IsPlain], rfl⟩

theorem spells_fieldText {c : Config Float} (counted : ∀ k ∈ c.maxfev, k < UInt64.size)
    (f : Field) : ∃ t v, Spells (c.fieldText f).toList t v ∧
      ∀ into : Config Float, into.readField f v = c.rereadField f into := by
  have double (x : Float) (set : Config Float → Float → Config Float) :
      ∃ t v, Spells (Layout.json.text x).toList t v ∧ ∀ into : Config Float,
        v.float?.map (set into) = (reread x).map (set into) := by
    obtain ⟨t, v, spelled, value⟩ := spells_text x
    exact ⟨t, v, spelled, fun into => by rw [value]⟩
  cases f with
  | ftol => exact double c.ftol fun into x => { into with ftol := x }
  | xtol => exact double c.xtol fun into x => { into with xtol := x }
  | gtol => exact double c.gtol fun into x => { into with gtol := x }
  | epsfcn => exact double c.epsfcn fun into x => { into with epsfcn := x }
  | factor => exact double c.factor fun into x => { into with factor := x }
  | maxfev =>
    unfold fieldText rereadField
    dsimp only
    cases budget : c.maxfev with
    | none => exact ⟨_, _, spells_null, fun _ => rfl⟩
    | some k =>
      have spelled := spells_number (Spelling.ofInt_wellFormed k)
      rw [Spelling.chars_ofNat] at spelled
      refine ⟨_, _, spelled, fun into => ?_⟩
      have value := unsigned?_ofInt (counted k budget)
      unfold readField
      dsimp only
      rw [value]
      rfl
  | scaling =>
    obtain ⟨plain, known⟩ := scaling_name c.scaling
    have text : '"' :: (c.scaling.name.toList ++ ['"']) = (c.fieldText .scaling).toList := by
      simp [fieldText]
    exact ⟨_, _, text ▸ spells_string plain, fun into => congrArg (Option.map _) known⟩
  | calcCovariance => exact ⟨_, _, spells_bool c.calcCovariance, fun _ => rfl⟩

/-! ### Members -/

theorem Field.ofName?_name (f : Field) : Field.ofName? f.name = some f := by
  cases f <;> rfl

theorem Field.plain_name (f : Field) : ∀ c ∈ f.name.toList, IsPlain c := by
  cases f <;> simp [name, IsPlain]

/-- Fields given once each, and not before, are all set in turn. -/
theorem readMembers_fields (value : Field → Json) {fields : List Field} (once : fields.Nodup)
    (c : Config Float) {seen : List Field} (fresh : ∀ f ∈ fields, f ∉ seen) :
    readMembers c seen (fields.map fun f => (some f.name, value f)) =
      fields.foldlM (fun c f => c.readField f (value f)) c := by
  induction fields generalizing c seen with
  | nil => rfl
  | cons f fields ih =>
    obtain ⟨apart, once⟩ := List.nodup_cons.mp once
    obtain ⟨new, later⟩ := List.forall_mem_cons.mp fresh
    rw [List.map_cons, readMembers, Field.ofName?_name, List.foldlM_cons]
    dsimp only
    rw [if_neg new]
    cases c.readField f (value f) with
    | none => rfl
    | some c =>
      refine ih once c fun g member again => ?_
      rcases List.mem_cons.mp again with rfl | before
      · exact apart member
      · exact later g member before

/-- The member that a field of a configuration is written as. -/
theorem exists_member {c : Config Float} (counted : ∀ k ∈ c.maxfev, k < UInt64.size) (f : Field) :
    ∃ m : Member, m.name = f.name ∧ m.text = (c.fieldText f).toList ∧
      ∀ into : Config Float, into.readField f m.value = c.rereadField f into := by
  obtain ⟨t, v, spelled, value⟩ := spells_fieldText counted f
  exact ⟨⟨f.name, (c.fieldText f).toList, t, v, f.plain_name, spelled⟩, rfl, rfl, value⟩

/-- A configuration is read back from its text field by field. -/
theorem ofJson?_toJson_eq {c : Config Float} (counted : ∀ k ∈ c.maxfev, k < UInt64.size) :
    ofJson? c.toJson = Field.all.foldlM (fun into f => c.rereadField f into) default := by
  choose member name text value using exists_member counted
  have line (f : Field) : ("  \"" ++ f.name ++ "\": " ++ c.fieldText f).toList =
      (member f).line := by
    simp [Member.line, name, text]
  have written : c.toJson.toList = objectText (Field.all.map member) := by
    simp [toJson, objectText, Field.all, line, lines]
  have parsed : parse? c.toJson = some (.object ((Field.all.map member).map Member.entry)) :=
    parse?_objectText written
  have entries : (Field.all.map member).map Member.entry =
      Field.all.map fun f => (some f.name, (member f).value) := by
    simp [Member.entry, name]
  rw [ofJson?, parsed]
  dsimp only
  have fields := readMembers_fields (fun f => (member f).value) (by decide : Field.all.Nodup)
    default fun _ _ => List.not_mem_nil
  rw [entries, fields]
  simp only [value]

/-! ### The round trip -/

def doubles (c : Config Float) : List Float :=
  [c.ftol, c.xtol, c.gtol, c.epsfcn, c.factor]

theorem ofJson_eq_ok_iff {text : String} {c : Config Float} :
    ofJson text = .ok c ↔ ofJson? text = some c := by
  unfold ofJson
  cases ofJson? text with
  | none => exact iff_of_false nofun nofun
  | some c' => simp

theorem ofJson?_toJson_doubles {c : Config Float} (counted : ∀ k ∈ c.maxfev, k < UInt64.size) :
    ofJson? c.toJson = do
      let ftol ← reread c.ftol
      let xtol ← reread c.xtol
      let gtol ← reread c.gtol
      let epsfcn ← reread c.epsfcn
      let factor ← reread c.factor
      return { c with ftol, xtol, gtol, epsfcn, factor } := by
  rw [ofJson?_toJson_eq counted]
  simp only [Field.all, List.foldlM_cons, List.foldlM_nil, rereadField]
  cases reread c.ftol <;> cases reread c.xtol <;> cases reread c.gtol <;>
    cases reread c.epsfcn <;> cases reread c.factor <;> rfl

theorem ofJson_toJson_iff {c : Config Float} (counted : ∀ k ∈ c.maxfev, k < UInt64.size) :
    ofJson c.toJson = .ok c ↔ ∀ x ∈ c.doubles, reread x = some x := by
  rw [ofJson_eq_ok_iff, ofJson?_toJson_doubles counted]
  simp only [doubles, List.forall_mem_cons]
  constructor
  · intro back
    simp only [Option.bind_eq_bind, Option.bind_eq_some_iff] at back
    obtain ⟨ftol, readFtol, xtol, readXtol, gtol, readGtol, epsfcn, readEpsfcn, factor,
      readFactor, eq⟩ := back
    obtain ⟨rfl, rfl, rfl, -, rfl, rfl, -, -⟩ := (Config.mk.injEq ..).mp (Option.some.inj eq)
    exact ⟨readFtol, readXtol, readGtol, readEpsfcn, readFactor, nofun⟩
  · rintro ⟨ftol, xtol, gtol, epsfcn, factor, -⟩
    rw [ftol, xtol, gtol, epsfcn, factor]
    rfl

/-- The configuration that is read from the text of a configuration is the same but for its
doubles, each of which is what its own text is read as. So it is the same configuration just if
that holds of its five doubles, as it does of those with few digits. -/
theorem ofJson_toJson {c : Config Float} (counted : ∀ k ∈ c.maxfev, k < UInt64.size) :
    (ofJson? c.toJson = do
      let ftol ← reread c.ftol
      let xtol ← reread c.xtol
      let gtol ← reread c.gtol
      let epsfcn ← reread c.epsfcn
      let factor ← reread c.factor
      return { c with ftol, xtol, gtol, epsfcn, factor }) ∧
    (ofJson c.toJson = .ok c ↔ ∀ x ∈ c.doubles, reread x = some x) ∧
    ((∀ x ∈ c.doubles, Brief x) → ofJson c.toJson = .ok c) :=
  ⟨ofJson?_toJson_doubles counted, ofJson_toJson_iff counted, fun brief =>
    (ofJson_toJson_iff counted).mpr fun x member => reread_of_brief (brief x member)⟩

/-- A configuration of few digits, with a budget. -/
def decimal : Config Float :=
  { (default : Config Float) with
    ftol := 1e-10, xtol := 2.5e-7, maxfev := some 500, epsfcn := -0.0, factor := 0.1 }

theorem ofJson_toJson_decimal : (∀ k ∈ decimal.maxfev, k < UInt64.size) ∧
    (∀ x ∈ decimal.doubles, Brief x) ∧ ofJson decimal.toJson = .ok decimal := by
  have counted : ∀ k ∈ decimal.maxfev, k < UInt64.size := by
    rintro _ ⟨⟩
    decide
  have brief : ∀ x ∈ decimal.doubles, Brief x := by decide +kernel
  exact ⟨counted, brief, (ofJson_toJson counted).2.2 brief⟩

/-- The default configuration but for a factor of 53 bits. -/
def large : Config Float :=
  { (default : Config Float) with factor := 9007199254740991 }

/-- Its text has a zero after the point, one digit too many, and is read as the number below. -/
theorem ofJson_toJson_large : (∀ x ∈ large.doubles, x.isFinite) ∧
    ofJson large.toJson = .ok { large with factor := 9007199254740990 } ∧
    ({ large with factor := 9007199254740990 } == large) = false := by
  refine ⟨by decide +kernel, ?_, by decide +kernel⟩
  have counted : ∀ k ∈ large.maxfev, k < UInt64.size := by rintro _ ⟨⟩
  have tolerance : reread large.ftol = some large.ftol := by decide +kernel
  have zero : reread large.gtol = some large.gtol := by decide +kernel
  have factor : reread large.factor = some 9007199254740990 := by decide +kernel
  have xtol : large.xtol = large.ftol := rfl
  have epsfcn : large.epsfcn = large.gtol := rfl
  rw [ofJson_eq_ok_iff, ofJson?_toJson_doubles counted, xtol, epsfcn, tolerance, zero, factor]
  rfl

end Config

end LeastSquares
