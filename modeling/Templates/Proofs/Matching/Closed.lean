import Templates.Proofs.Matching.Heredity

/-!
# Types without parameters

A type is closed if no parameter occurs anywhere inside it (`Ty.isClosed`). `Ty.mentions` does not look
at the values and the sequences among the arguments of instances, and a substitution leaves them alone.
So a type that mentions no parameter is closed if these literal parts are (`isClosed_iff`), and after
closed arguments are put in it is so exactly if they were (`Ty.isClosed_subst_iff`).
-/

namespace Templates

def Dim.isClosed : Dim → Bool
  | .param _ => false
  | .known _ | .standIn _ => true

def TemplateRef.isClosed : TemplateRef → Bool
  | .param _ => false
  | .symbol _ => true

mutual

/-- No parameter occurs anywhere inside. -/
def Ty.isClosed : Ty → Bool
  | .param _ => false
  | .const t | .ptr t | .array t => t.isClosed
  | .staticArray t d => d.isClosed && t.isClosed
  | .inst r args => r.isClosed && Arg.areClosed args
  | .basic _ | .named _ | .standIn _ | .error => true

def Arg.isClosed : Arg → Bool
  | .type t | .value t _ => t.isClosed
  | .symbol _ => true
  | .tuple elems => Arg.areClosed elems

def Arg.areClosed : List Arg → Bool
  | [] => true
  | a :: as => a.isClosed && Arg.areClosed as

end

mutual

/-- The values and the sequences among the arguments of instances are closed. -/
def Ty.literalsClosed : Ty → Bool
  | .const t | .ptr t | .array t | .staticArray t _ => t.literalsClosed
  | .inst _ args => Arg.literalsAreClosed args
  | .basic _ | .named _ | .param _ | .standIn _ | .error => true

def Arg.literalsClosed : Arg → Bool
  | .type t => t.literalsClosed
  | .value t _ => t.isClosed
  | .symbol _ => true
  | .tuple elems => Arg.areClosed elems

def Arg.literalsAreClosed : List Arg → Bool
  | [] => true
  | a :: as => a.literalsClosed && Arg.literalsAreClosed as

end

variable {b : Bindings} {i : ParamIdx}

theorem Arg.areClosed_iff {as : List Arg} : areClosed as = true ↔ ∀ a ∈ as, a.isClosed = true := by
  induction as with
  | nil => simp [areClosed]
  | cons a as ih => simp [areClosed, ih]

theorem Arg.literalsAreClosed_iff {as : List Arg} :
    literalsAreClosed as = true ↔ ∀ a ∈ as, a.literalsClosed = true := by
  induction as with
  | nil => simp [literalsAreClosed]
  | cons a as ih => simp [literalsAreClosed, ih]

theorem Arg.literalsAreClosed_append (as bs : List Arg) :
    literalsAreClosed (as ++ bs) = (literalsAreClosed as && literalsAreClosed bs) := by
  induction as with
  | nil => rfl
  | cons a as ih => rw [List.cons_append, literalsAreClosed, ih, literalsAreClosed, Bool.and_assoc]

theorem Dim.isClosed_iff {d : Dim} : d.isClosed = true ↔ d.mentions = [] := by
  cases d <;> simp [isClosed, mentions]

theorem TemplateRef.isClosed_iff {r : TemplateRef} : r.isClosed = true ↔ r.mentions = [] := by
  cases r <;> simp [isClosed, mentions]

theorem Ty.literalsClosed_constant (t : Ty) : t.constant.literalsClosed = t.literalsClosed := by
  cases t <;> rfl

/-- What is closed mentions no parameter, and its literal parts are closed. -/
theorem isClosed_iff :
    (∀ t : Ty, t.isClosed = true ↔ t.mentions = [] ∧ t.literalsClosed = true) ∧
    (∀ a : Arg, a.isClosed = true ↔ a.mentions = [] ∧ a.literalsClosed = true) ∧
    (∀ as : List Arg, Arg.areClosed as = true ↔
      Arg.mentionsList as = [] ∧ Arg.literalsAreClosed as = true) := by
  refine Ty.induct ?basic ?named ?const ?ptr ?array ?staticArray ?inst ?param ?standIn ?error
    ?type ?value ?symbol ?tuple ?nil ?cons
  case basic | named | standIn | symbol => exact fun _ => iff_of_true rfl ⟨rfl, rfl⟩
  case error | nil => exact iff_of_true rfl ⟨rfl, rfl⟩
  case const | ptr | array | type => exact fun _ ih => ih
  case value => exact fun t _ _ => (and_iff_right rfl).symm
  case tuple => exact fun elems _ => (and_iff_right rfl).symm
  case param => exact fun i => iff_of_false nofun fun h => nomatch h.1
  case staticArray =>
    intro t d ih
    simp only [Ty.isClosed, Ty.mentions, Ty.literalsClosed, Bool.and_eq_true,
      List.append_eq_nil_iff, Dim.isClosed_iff, ih, and_assoc]
  case inst =>
    intro r as ih
    simp only [Ty.isClosed, Ty.mentions, Ty.literalsClosed, Bool.and_eq_true,
      List.append_eq_nil_iff, TemplateRef.isClosed_iff, ih, and_assoc]
  case cons =>
    intro a as iha ihas
    simp only [Arg.areClosed, Arg.mentionsList, Arg.literalsAreClosed, Bool.and_eq_true,
      List.append_eq_nil_iff, iha, ihas, and_and_and_comm]

theorem Ty.isClosed_iff (t : Ty) :
    t.isClosed = true ↔ t.hasParams = false ∧ t.literalsClosed = true := by
  rw [hasParams_eq_false]
  exact Templates.isClosed_iff.1 t

theorem Arg.literalsClosed_of_isClosed {a : Arg} (h : a.isClosed = true) : a.literalsClosed = true :=
  ((isClosed_iff.2.1 a).mp h).2

/-- All that is bound is closed. -/
abbrev Bindings.Closed (b : Bindings) : Prop := b.All (·.isClosed = true)

namespace Bindings.Closed

variable (hb : b.Closed)

include hb

/-- What is put in the place of a parameter has no literal parts that are open. -/
theorem literalsAreClosed_splice (i : ParamIdx) : Arg.literalsAreClosed (b.splice i) = true := by
  refine Arg.literalsAreClosed_iff.mpr fun a ha => ?_
  unfold Bindings.splice at ha
  split at ha
  · next elems hi => exact Arg.literalsClosed_of_isClosed (Arg.areClosed_iff.mp (hb hi) a ha)
  · next hi =>
    obtain rfl := List.mem_singleton.mp ha
    exact Arg.literalsClosed_of_isClosed (hb hi)
  · obtain rfl := List.mem_singleton.mp ha
    rfl

/-- The literal parts that are open stay so, and none come to them. -/
theorem literalsClosed_subst :
    (∀ t : Ty, (t.subst b).literalsClosed = t.literalsClosed) ∧
    (∀ a : Arg, Arg.literalsAreClosed (a.subst b) = a.literalsClosed) ∧
    (∀ as : List Arg, Arg.literalsAreClosed (Arg.substList b as) = Arg.literalsAreClosed as) := by
  refine Ty.induct ?basic ?named ?const ?ptr ?array ?staticArray ?inst ?param ?standIn ?error
    ?type ?value ?symbol ?tuple ?nil ?cons
  case basic | named | standIn | symbol => exact fun _ => rfl
  case error | nil => rfl
  case const => exact fun t ih => (Ty.literalsClosed_constant _).trans ih
  case ptr | array => exact fun _ ih => ih
  case staticArray | inst => exact fun _ _ ih => ih
  case param =>
    intro i
    rw [Ty.subst]
    split
    · next t hi => exact Arg.literalsClosed_of_isClosed (hb hi)
    · rfl
  case type =>
    intro t ih
    by_cases ht : ∃ i, t = .param i
    · obtain ⟨i, rfl⟩ := ht
      exact hb.literalsAreClosed_splice i
    · rw [Arg.subst_type fun i hi => ht ⟨i, hi⟩, Arg.literalsAreClosed, Arg.literalsAreClosed,
        Bool.and_true]
      exact ih
  case value => exact fun _ _ _ => Bool.and_true _
  case tuple => exact fun _ _ => Bool.and_true _
  case cons =>
    intro a as iha ihas
    rw [Arg.substList, Arg.literalsAreClosed_append, iha, ihas, Arg.literalsAreClosed]

end Bindings.Closed

/-- **After closed arguments are put in a type is closed exactly if it mentions no parameter and its
literal parts are closed.** -/
theorem Ty.isClosed_subst_iff (hb : b.Closed) (t : Ty) : (t.subst b).isClosed = true ↔
    (t.subst b).hasParams = false ∧ t.literalsClosed = true := by
  rw [Ty.isClosed_iff, hb.literalsClosed_subst.1 t]

end Templates
