import LeastSquares.Proofs.Codes
import LeastSquares.Proofs.Json.Objects
import LeastSquares.Json.Records
import LeastSquares.Fit

/-!
# Terminations and their codes

A code tells the termination as long as the statuses of aborts are negative. Those that a solve
ends with are, but an abort may be read with any status of 32 bits: one with a status of zero or
above shares its code with another termination, or has a code that means nothing, and is no error
by its code where it is one by itself.
-/
namespace LeastSquares

open Json

namespace Termination

/-! ### Terminations as text -/

/-- A status of an abort has 32 bits. -/
def Fits (t : Termination) : Prop :=
  ∀ status, t = .userAbort status →
    Int32.minValue.toInt ≤ status ∧ status ≤ Int32.maxValue.toInt

theorem unitName_plain {t : Termination} {name : String} (named : t.unitName? = some name) :
    (∀ c ∈ name.toList, IsPlain c) ∧ ofUnitName? name = some t := by
  cases t with
  | userAbort status => cases named
  | _ =>
    cases named
    exact ⟨by simp [IsPlain], rfl⟩

theorem parse?_name {name : String} (plain : ∀ c ∈ name.toList, IsPlain c) :
    parse? ("\"" ++ name ++ "\"") = some (.string (some name)) := by
  have text : ("\"" ++ name ++ "\"").toList = '"' :: (name.toList ++ ['"']) := by simp
  have cut : Cut ('"' :: (name.toList ++ ['"'])) [.string (some name)] :=
    .name plain (.done nofun)
  rw [parse?, tokens?_of_cut (text ▸ cut)]
  rfl

theorem toList_toJson_abort (status : Int) : (userAbort status).toJson.toList =
    '\x7b' :: '"' :: ("UserAbort".toList ++
      '"' :: ':' :: ((Spelling.ofInt status).chars ++ ['\x7d'])) := by
  rw [Spelling.chars_ofInt]
  simp [toJson, unitName?, code]

theorem parse?_abort (status : Int) : parse? (userAbort status).toJson =
    some (.object [(some "UserAbort", .number (Spelling.ofInt status).numeral)]) := by
  have ends : Spelling.Ends ['\x7d'] := by
    rintro _ ⟨⟩
    decide
  have close : Cut ['\x7d'] [.closeObject] := .mark (by decide) rfl (.done nofun)
  have value := close.scalar (spells_number (Spelling.ofInt_wellFormed status)) ends
  have plain : ∀ c ∈ "UserAbort".toList, IsPlain c := by simp [IsPlain]
  have cut : Cut (userAbort status).toJson.toList [.openObject, .string (some "UserAbort"),
      .colon, .number (Spelling.ofInt status).numeral, .closeObject] := by
    rw [toList_toJson_abort]
    exact .mark (by decide) rfl (.name plain (.mark (by decide) rfl value))
  rw [parse?, tokens?_of_cut cut]
  rfl

theorem signed?_ofInt (i : Int) : (Json.number (Spelling.ofInt i).numeral).signed? =
    if Int32.minValue.toInt ≤ i ∧ i ≤ Int32.maxValue.toInt then some i else none := by
  rw [signed?, Spelling.toInt?_ofInt, Option.bind_eq_bind, Option.bind_some]

theorem signed?_bounds {v : Json} {i : Int} (read : v.signed? = some i) :
    Int32.minValue.toInt ≤ i ∧ i ≤ Int32.maxValue.toInt := by
  cases v with
  | number n =>
    obtain ⟨j, -, read⟩ := Option.bind_eq_some_iff.mp read
    split at read
    next fits =>
      obtain rfl := Option.some.inj read
      exact fits
    next => cases read
  | _ => cases read

/-- What fits is read back from its text. -/
theorem ofJson?_toJson {t : Termination} (fits : t.Fits) : ofJson? t.toJson = some t := by
  cases named : t.unitName? with
  | some name =>
    obtain ⟨plain, known⟩ := unitName_plain named
    have text : t.toJson = "\"" ++ name ++ "\"" := by rw [toJson, named]
    rw [ofJson?, text, parse?_name plain]
    exact known
  | none =>
    obtain ⟨status, rfl⟩ : ∃ status, t = .userAbort status := by
      cases t with
      | userAbort status => exact ⟨status, rfl⟩
      | _ => cases named
    have read := signed?_ofInt status
    rw [if_pos (fits status rfl)] at read
    rw [ofJson?, parse?_abort]
    exact congrArg (Option.map userAbort) read

/-- What is read fits. -/
theorem fits_of_ofJson? {text : String} {t : Termination} (read : ofJson? text = some t) :
    t.Fits := by
  rintro status rfl
  unfold ofJson? at read
  obtain ⟨v, -, read⟩ := Option.bind_eq_some_iff.mp read
  split at read
  next v =>
    obtain ⟨i, signed, same⟩ := Option.map_eq_some_iff.mp read
    obtain rfl : i = status := userAbort.inj same
    exact signed?_bounds signed
  next =>
    obtain ⟨name, -, known⟩ := Option.bind_eq_some_iff.mp read
    have unit := List.mem_of_find?_eq_some known
    simp [units] at unit

theorem exists_ofJson?_iff (t : Termination) : (∃ text, ofJson? text = some t) ↔ t.Fits :=
  ⟨fun ⟨_, read⟩ => fits_of_ofJson? read, fun fits => ⟨t.toJson, ofJson?_toJson fits⟩⟩

/-! ### Terminations by their codes -/

theorem abort_or_told (t : Termination) :
    (∃ status, t = .userAbort status) ∨ ofCode? t.code = some t := by
  cases t with
  | userAbort status => exact .inl ⟨status, rfl⟩
  | _ => exact .inr rfl

theorem ofCode?_code_iff (t : Termination) :
    ofCode? t.code = some t ↔ ∀ status, t = .userAbort status → status < 0 := by
  refine ⟨?_, ofCode?_code⟩
  rintro told status rfl
  unfold ofCode? at told
  split at told
  next negative => exact negative
  next => split at told <;> cases told

/-- Terminations share a code just if one of them is the abort with the code of the other. -/
theorem code_eq_iff (t t' : Termination) :
    t.code = t'.code ↔ t = t' ∨ t = .userAbort t'.code ∨ t' = .userAbort t.code := by
  constructor
  · intro same
    rcases t.abort_or_told with ⟨status, rfl⟩ | told
    · exact .inr (.inl (congrArg userAbort same))
    rcases t'.abort_or_told with ⟨status, rfl⟩ | told'
    · exact .inr (.inr (congrArg userAbort same.symm))
    rw [same, told'] at told
    exact .inl (Option.some.inj told).symm
  · rintro (rfl | abort | abort)
    · rfl
    · rw [abort]
      rfl
    · rw [abort]
      rfl

/-- Convergence is a verdict, unless it is an abort with the code of a convergence. -/
theorem isVerdict_of_isConverged_iff (t : Termination) : (t.isConverged → t.isVerdict) ↔
    ∀ status, t = .userAbort status → status < 1 ∨ 4 < status := by
  cases t with
  | userAbort status =>
    have converged : (userAbort status).isConverged ↔ 1 ≤ status ∧ status ≤ 4 :=
      Bool.and_eq_true_iff.trans (and_congr decide_eq_true_iff decide_eq_true_iff)
    constructor
    · rintro verdict _ ⟨⟩
      by_contra inside
      cases verdict (converged.mpr (by omega))
    · intro apart met
      have := apart status rfl
      have := converged.mp met
      omega
  | _ => exact iff_of_true (by decide) nofun

/-- What is not a verdict is an error, unless it is an abort with a status above zero. -/
theorem not_isVerdict_iff_isError_iff (t : Termination) : (¬ t.isVerdict ↔ t.isError) ↔
    ∀ status, t = .userAbort status → status ≤ 0 := by
  cases t with
  | userAbort status =>
    have error : (userAbort status).isError ↔ status ≤ 0 := decide_eq_true_iff
    rw [error]
    constructor
    · rintro same _ ⟨⟩
      exact same.mp Bool.false_ne_true
    · intro below
      exact iff_of_true Bool.false_ne_true (below status rfl)
  | _ => exact iff_of_true (by decide) nofun

end Termination

/-! ### Results -/

namespace Fit

variable {α : Type} (f : Fit α)

theorem checked_eq_ok_iff : f.checked = .ok f ↔ f.outcome.info.isVerdict := by
  unfold checked
  cases f.outcome.info <;> simp [Termination.isVerdict]

theorem checked_eq_error_iff : (∃ e, f.checked = .error e) ↔ ¬ f.outcome.info.isVerdict := by
  unfold checked
  cases f.outcome.info <;> simp [Termination.isVerdict]

end Fit

section

variable {α : Type} [Scalar α]

/-- A solve ends with the negative status of an abort, if with an abort at all. -/
theorem status_neg_of_solve {p : Problem α} {c : Config α} {x residuals diag : Array α}
    {w : Workspace α} {status : Int}
    (aborted : (solve p c x residuals diag w).outcome.info = .userAbort status) : status < 0 := by
  by_cases h : Accepted p c x residuals diag w
  · rcases h.reasoned with verdict | ⟨e, same⟩
    · rw [aborted] at verdict
      cases verdict
    · rw [aborted] at same
      rw [Termination.userAbort.inj same]
      exact e.abortStatus_neg
  · obtain ⟨e, rejected⟩ := solve_of_not_accepted h
    rw [rejected] at aborted
    cases aborted

/-- Aborts may have any status of 32 bits when they are read, but a solve only ends with negative
ones. Those with a status of zero or above are the only terminations that their codes do not tell,
and they share their codes with other terminations, if with any. Where the status is above zero,
the code is no error although the result is one, and where it is four at most, the result counts as
converged. -/
theorem termination_correspondence (t : Termination) :
    ((∃ text, Termination.ofJson? text = some t) ↔ t.Fits) ∧
    (∀ {p : Problem α} {c : Config α} {x residuals diag : Array α} {w : Workspace α},
      (solve p c x residuals diag w).outcome.info = t →
        ∀ status, t = .userAbort status → status < 0) ∧
    (Termination.ofCode? t.code = some t ↔ ∀ status, t = .userAbort status → status < 0) ∧
    (∀ t' : Termination, t.code = t'.code ↔
      t = t' ∨ t = .userAbort t'.code ∨ t' = .userAbort t.code) ∧
    ∀ f : Fit α, f.outcome.info = t →
      ((f.converged → f.checked = .ok f) ↔
        ∀ status, t = .userAbort status → status < 1 ∨ 4 < status) ∧
      (((∃ e, f.checked = .error e) ↔ t.isError) ↔
        ∀ status, t = .userAbort status → status ≤ 0) := by
  refine ⟨t.exists_ofJson?_iff, ?_, t.ofCode?_code_iff, t.code_eq_iff, ?_⟩
  · rintro p c x residuals diag w ended status rfl
    exact status_neg_of_solve ended
  · rintro f rfl
    rw [f.checked_eq_ok_iff, f.checked_eq_error_iff]
    exact ⟨f.outcome.info.isVerdict_of_isConverged_iff,
      f.outcome.info.not_isVerdict_iff_isError_iff⟩

/-- An abort that is read with the status one has the code of a convergence: the code tells another
termination, and its results count as converged and become errors. -/
theorem termination_code_shared :
    Termination.ofJson? (Termination.userAbort 1).toJson = some (.userAbort 1) ∧
      Termination.ofCode? (Termination.userAbort 1).code = some .ftolReached ∧
      ∃ f : Fit Float, f.outcome.info = .userAbort 1 ∧ f.converged ∧ ¬ f.outcome.info.isError ∧
        f.checked = .error (.aborted 1) := by
  refine ⟨Termination.ofJson?_toJson ?_, rfl, ⟨#[1], #[0], #[1], ⟨.userAbort 1, 3, 1, 0⟩, none⟩,
    rfl, rfl, Bool.false_ne_true, rfl⟩
  rintro _ ⟨⟩
  decide

end

end LeastSquares
