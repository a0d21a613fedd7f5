import Templates.Proofs.Deduction.Exact
import Templates.Proofs.Ranking.StandIns

/-!
# Patterns and their own stand-ins

Deduction along a pattern with its own stand-ins put in binds each parameter to what stands for it
there, its face (`Deduce.derives_withStandIns`), if every parameter stands where its kind may stand.
Where the parameters are bound to their faces, putting the bindings in and putting the stand-ins in
are the same (`subst_of_stands`).
-/

namespace Templates

/-! ## The places of parameters -/

/-- Bound to types. -/
def ParamKind.isTyped : ParamKind → Bool
  | .type _ | .this _ => true
  | .value _ | .symbol _ | .tuple => false

def ParamKind.isValue : ParamKind → Bool
  | .value _ => true
  | _ => false

def ParamKind.isSymbol : ParamKind → Bool
  | .symbol _ => true
  | _ => false

/-- A parameter that gives a length is a value. -/
def Dim.placed (ps : List Param) : Dim → Bool
  | .param i => (Deduce.kind? ps i).any ParamKind.isValue
  | .known _ | .standIn _ => true

/-- A parameter that gives a template is a symbol. -/
def TemplateRef.placed (ps : List Param) : TemplateRef → Bool
  | .param i => (Deduce.kind? ps i).any ParamKind.isSymbol
  | .symbol _ => true

mutual

/-- Every parameter stands where its kind may stand. In the place of an argument of an instance that
is a type or a sequence. -/
def Ty.placed (ps : List Param) : Ty → Bool
  | .param i => (Deduce.kind? ps i).any ParamKind.isTyped
  | .const t | .ptr t | .array t => t.placed ps
  | .staticArray t d => t.placed ps && d.placed ps
  | .inst r args => r.placed ps && Arg.placedList ps args
  | .basic _ | .named _ | .standIn _ | .error => true

def Arg.placed (ps : List Param) : Arg → Bool
  | .type (.param i) => (Deduce.kind? ps i).any fun k => k.isTyped || k.isTuple
  | .type t => t.placed ps
  | .value _ _ | .symbol _ | .tuple _ => true

def Arg.placedList (ps : List Param) : List Arg → Bool
  | [] => true
  | a :: as => a.placed ps && Arg.placedList ps as

end

mutual

/-- No argument of an instance follows a sequence. -/
def Ty.sequencesLast (ps : List Param) : Ty → Bool
  | .const t | .ptr t | .array t | .staticArray t _ => t.sequencesLast ps
  | .inst _ args => Arg.sequencesLastList ps args
  | .basic _ | .named _ | .param _ | .standIn _ | .error => true

def Arg.sequencesLast (ps : List Param) : Arg → Bool
  | .type t => t.sequencesLast ps
  | .value _ _ | .symbol _ | .tuple _ => true

def Arg.sequencesLastList (ps : List Param) : List Arg → Bool
  | [] => true
  | a :: as => a.sequencesLast ps && (as.isEmpty || (Deduce.soaking? ps a).isNone) &&
      Arg.sequencesLastList ps as

end

variable {ps : List Param} {b c : Bindings} {i j : ParamIdx} {id : DeclId} {k : ParamKind} {t : Ty}

theorem Deduce.lt_of_kind? (h : kind? ps i = some k) : i.index < ps.length :=
  let ⟨_, hp, _⟩ := Option.map_eq_some_iff.mp h
  (List.getElem?_eq_some_iff.mp hp).1

theorem Arg.placed_type (ht : ∀ i, t ≠ .param i) : (Arg.type t).placed ps = t.placed ps := by
  cases t with
  | param i => exact absurd rfl (ht i)
  | _ => rfl

/-! ## Faces -/

/-- What stands for a parameter of the kind in a pattern; for a value it has the given type. -/
def ParamKind.face (p : Placeholder) (t : Ty) : ParamKind → Arg
  | .type _ | .this _ => .type (.standIn p)
  | .value _ => .value t (.standIn p)
  | .symbol _ => .symbol (.placeholder p)
  | .tuple => .tuple [.type (.standIn p)]

/-- The declared type of a value. -/
def ParamKind.declared : ParamKind → Ty
  | .value p => p.ty
  | .type _ | .this _ | .symbol _ | .tuple => .ulong

/-- The type of the value that a length gives to the parameter. -/
def ParamKind.lengthTy (k : ParamKind) : Ty := if k.declared.hasParams then .ulong else k.declared

/-- Parameter `i` is bound to its face. -/
def Bindings.Stands (ps : List Param) (id : DeclId) (b : Bindings) (i : ParamIdx) : Prop :=
  ∃ k t, Deduce.kind? ps i = some k ∧ b.get? i = some (k.face ⟨id, i⟩ t)

/-- Parameter `i` is bound to the face that deduction gives to it. -/
def Bindings.Shows (ps : List Param) (id : DeclId) (b : Bindings) (i : ParamIdx) : Prop :=
  ∃ k, Deduce.kind? ps i = some k ∧ b.get? i = some (k.face ⟨id, i⟩ k.lengthTy)

namespace Bindings

theorem Shows.stands (h : b.Shows ps id i) : b.Stands ps id i :=
  let ⟨k, hk, hi⟩ := h
  ⟨k, k.lengthTy, hk, hi⟩

theorem Stands.mono (h : b.Stands ps id i) (hle : b.Le c) : c.Stands ps id i :=
  let ⟨k, t, hk, hi⟩ := h
  ⟨k, t, hk, hle hi⟩

theorem Shows.mono (h : b.Shows ps id i) (hle : b.Le c) : c.Shows ps id i :=
  let ⟨k, hk, hi⟩ := h
  ⟨k, hk, hle hi⟩

theorem Stands.get? (h : b.Stands ps id i) (hk : Deduce.kind? ps i = some k) :
    ∃ t, b.get? i = some (k.face ⟨id, i⟩ t) := by
  obtain ⟨k', t, hk', hi⟩ := h
  rw [hk] at hk'
  cases hk'
  exact ⟨t, hi⟩

/-- A parameter that is free or bound to its face can be bound to its face. -/
theorem unify_face (hlen : b.length = ps.length) (hk : Deduce.kind? ps i = some k)
    (h : b.get? i = none ∨ b.Shows ps id i) :
    ∃ c, b.unify i (k.face ⟨id, i⟩ k.lengthTy) = some c ∧ c.Shows ps id i := by
  have hfree : b.get? i = none ∨ b.get? i = some (k.face ⟨id, i⟩ k.lengthTy) := by
    refine h.imp_right fun ⟨k', hk', hi⟩ => ?_
    rw [hk] at hk'
    cases hk'
    exact hi
  obtain ⟨c, hc⟩ := exists_unify (hlen ▸ Deduce.lt_of_kind? hk) hfree
  exact ⟨c, hc, k, hk, get?_unify hc⟩

/-- What was free or bound to its face is so when some more are bound to their faces. -/
theorem Binds.awaits {is : List ParamIdx} (h : Binds is b c) (his : ∀ j ∈ is, c.Shows ps id j)
    (hj : b.get? j = none ∨ b.Shows ps id j) : c.get? j = none ∨ c.Shows ps id j := by
  by_cases hmem : j ∈ is
  · exact .inr (his j hmem)
  · rw [h.only hmem]
    exact hj.imp_right (·.mono h.le)

end Bindings

namespace Deduce

theorem any_kind? {f : ParamKind → Bool} (h : (kind? ps i).any f = true) :
    ∃ k, kind? ps i = some k ∧ f k = true := by
  cases hk : kind? ps i with
  | none =>
    rw [hk] at h
    cases h
  | some k =>
    rw [hk] at h
    exact ⟨k, rfl, h⟩

theorem tyParam_face (hlen : b.length = ps.length) (hk : (kind? ps i).any ParamKind.isTyped = true)
    (h : b.get? i = none ∨ b.Shows ps id i) :
    ∃ c, tyParam ps i (.standIn ⟨id, i⟩) b = some c ∧ c.Shows ps id i := by
  obtain ⟨k, hk, htyped⟩ := any_kind? hk
  obtain ⟨c, hc, hshows⟩ := Bindings.unify_face hlen hk h
  refine ⟨c, ?_, hshows⟩
  rw [tyParam, hk]
  cases k with
  | type | this => exact hc
  | value | symbol | tuple => cases htyped

theorem argParam_face (hlen : b.length = ps.length) (hk : (kind? ps i).any ParamKind.isTyped = true)
    (h : b.get? i = none ∨ b.Shows ps id i) :
    ∃ c, argParam ps i (.type (.standIn ⟨id, i⟩)) b = some c ∧ c.Shows ps id i := by
  obtain ⟨k, hk, htyped⟩ := any_kind? hk
  obtain ⟨c, hc, hshows⟩ := Bindings.unify_face hlen hk h
  refine ⟨c, ?_, hshows⟩
  unfold argParam
  rw [hk]
  cases k with
  | type | this => exact hc
  | value | symbol | tuple => cases htyped

theorem dim_face {d : Dim} (hlen : b.length = ps.length) (hd : d.placed ps = true)
    (h : ∀ j ∈ d.mentions, b.get? j = none ∨ b.Shows ps id j) :
    ∃ c, dim ps (d.withStandIn id) d b = some c ∧ ∀ j ∈ d.mentions, c.Shows ps id j := by
  cases d with
  | known | standIn => exact ⟨b, if_pos rfl, nofun⟩
  | param i =>
    obtain ⟨k, hk, hvalue⟩ := any_kind? hd
    obtain ⟨c, hc, hshows⟩ := Bindings.unify_face hlen hk (h i List.mem_cons_self)
    refine ⟨c, ?_, List.forall_mem_singleton.mpr hshows⟩
    rw [dim, hk]
    cases k with
    | value => exact hc
    | type | this | symbol | tuple => cases hvalue

theorem templateRef_face {r : TemplateRef} (hlen : b.length = ps.length) (hr : r.placed ps = true)
    (h : ∀ j ∈ r.mentions, b.get? j = none ∨ b.Shows ps id j) :
    ∃ c, templateRef ps (r.withStandIn id) r b = some c ∧ ∀ j ∈ r.mentions, c.Shows ps id j := by
  cases r with
  | symbol => exact ⟨b, if_pos rfl, nofun⟩
  | param i =>
    obtain ⟨k, hk, hsymbol⟩ := any_kind? hr
    obtain ⟨c, hc, hshows⟩ := Bindings.unify_face hlen hk (h i List.mem_cons_self)
    refine ⟨c, ?_, List.forall_mem_singleton.mpr hshows⟩
    rw [TemplateRef.withStandIn, templateRef, hk]
    cases k with
    | symbol => exact hc
    | type | this | value | tuple => cases hsymbol

variable (ps id) in
/-- Along a pattern its own stand-ins are taken apart with every parameter bound to its face. -/
theorem derives_withStandIns :
    (∀ t : Ty, t.placed ps = true → t.sequencesLast ps = true → t.singlyConst = true →
      t.containsError = false → ∀ b : Bindings, b.length = ps.length →
      (∀ j ∈ t.mentions, b.get? j = none ∨ b.Shows ps id j) →
      ∃ c, Derives ps (.ty (t.withStandIns id) t) b .exact c ∧ ∀ j ∈ t.mentions, c.Shows ps id j) ∧
    (∀ a : Arg, soaking? ps a = none → a.placed ps = true → a.sequencesLast ps = true →
      a.singlyConst = true → a.containsError = false → ∀ b : Bindings, b.length = ps.length →
      (∀ j ∈ a.mentions, b.get? j = none ∨ b.Shows ps id j) →
      ∃ c, Derives ps (.arg (a.withStandIns id) a) b .exact c ∧ ∀ j ∈ a.mentions, c.Shows ps id j) ∧
    (∀ as : List Arg, Arg.placedList ps as = true → Arg.sequencesLastList ps as = true →
      Arg.singlyConstList as = true → Arg.anyContainsError as = false →
      ∀ b : Bindings, b.length = ps.length →
      (∀ j ∈ Arg.mentionsList as, b.get? j = none ∨ b.Shows ps id j) →
      ∃ c, Derives ps (.args (Arg.withStandInsList id as) as) b .exact c ∧
        ∀ j ∈ Arg.mentionsList as, c.Shows ps id j) := by
  refine Ty.induct ?basic ?named ?const ?ptr ?array ?staticArray ?inst ?param ?standIn ?error
    ?type ?value ?symbol ?tuple ?nil ?cons
  case basic => exact fun x _ _ _ _ b _ _ => ⟨b, .basic, List.forall_mem_nil _⟩
  case named => exact fun x _ _ _ _ b _ _ => ⟨b, .named, List.forall_mem_nil _⟩
  case standIn => exact fun x _ _ _ _ b _ _ => ⟨b, .standIn, List.forall_mem_nil _⟩
  case error => exact fun _ _ _ herr => by cases herr
  case param =>
    intro i hplaced _ _ _ b hlen h
    obtain ⟨c, hc, hshows⟩ := tyParam_face hlen hplaced (h i List.mem_cons_self)
    exact ⟨c, .param hc, List.forall_mem_singleton.mpr hshows⟩
  case const =>
    intro t ih hplaced hseq hconst herr b hlen h
    rw [Ty.singlyConst, Bool.and_eq_true, Bool.not_eq_true'] at hconst
    obtain ⟨c, hc, hshows⟩ := ih hplaced hseq hconst.2 herr b hlen h
    have hstays : (t.withStandIns id).constant = .const (t.withStandIns id) := by
      refine Ty.constant_of_not_isConst ?_
      cases t with
      | const => cases hconst.1
      | _ => rfl
    refine ⟨c, ?_, hshows⟩
    rw [Ty.withStandIns, hstays]
    exact .const hc
  case ptr =>
    intro t ih hplaced hseq hconst herr b hlen h
    obtain ⟨c, hc, hshows⟩ := ih hplaced hseq hconst herr b hlen h
    exact ⟨c, .ptr hc, hshows⟩
  case array =>
    intro t ih hplaced hseq hconst herr b hlen h
    obtain ⟨c, hc, hshows⟩ := ih hplaced hseq hconst herr b hlen h
    exact ⟨c, .array hc, hshows⟩
  case staticArray =>
    intro t d ih hplaced hseq hconst herr b hlen h
    obtain ⟨hd, ht⟩ := List.forall_mem_append.mp h
    obtain ⟨hplacedt, hplacedd⟩ := Bool.and_eq_true_iff.mp hplaced
    obtain ⟨c, hc, hshows⟩ := ih hplacedt hseq hconst herr b hlen ht
    have hbinds := hc.binds
    obtain ⟨e, he, hshowsd⟩ := dim_face (hbinds.length.trans hlen) hplacedd fun j hj =>
      hbinds.awaits hshows (hd j hj)
    refine ⟨e, .staticArray hc he, List.forall_mem_append.mpr ⟨hshowsd, fun j hj => ?_⟩⟩
    exact (hshows j hj).mono (dim_binds he).le
  case inst =>
    intro r as ih hplaced hseq hconst herr b hlen h
    obtain ⟨hr, has⟩ := List.forall_mem_append.mp h
    obtain ⟨hplacedr, hplacedas⟩ := Bool.and_eq_true_iff.mp hplaced
    obtain ⟨c, hc, hshowsr⟩ := templateRef_face hlen hplacedr hr
    have hbinds := templateRef_binds hc
    obtain ⟨e, he, hshows⟩ := ih hplacedas hseq hconst herr c (hbinds.length.trans hlen) fun j hj =>
      hbinds.awaits hshowsr (has j hj)
    refine ⟨e, .inst hc he, List.forall_mem_append.mpr ⟨fun j hj => ?_, hshows⟩⟩
    exact (hshowsr j hj).mono he.binds.le
  case type =>
    intro t ih hsoak hplaced hseq hconst herr b hlen h
    by_cases ht : ∃ i, t = .param i
    · obtain ⟨i, rfl⟩ := ht
      have hk : (kind? ps i).any ParamKind.isTyped = true := by
        obtain ⟨k, hk, hkind⟩ := any_kind? hplaced
        rw [soaking?, hk] at hsoak
        rw [hk]
        cases k with
        | type | this => rfl
        | value | symbol => cases hkind
        | tuple => cases hsoak
      obtain ⟨c, hc, hshows⟩ := argParam_face hlen hk (h i List.mem_cons_self)
      exact ⟨c, .argParam hc, List.forall_mem_singleton.mpr hshows⟩
    · have ht (i : ParamIdx) : t ≠ .param i := fun hi => ht ⟨i, hi⟩
      rw [Arg.placed_type ht] at hplaced
      obtain ⟨c, hc, hshows⟩ := ih hplaced hseq hconst herr b hlen h
      exact ⟨c, .type ht hc, hshows⟩
  case value => exact fun t x _ _ _ _ _ _ b _ _ => ⟨b, .value, List.forall_mem_nil _⟩
  case symbol => exact fun s _ _ _ _ _ b _ _ => ⟨b, .symbol, List.forall_mem_nil _⟩
  case tuple => exact fun as _ _ _ _ _ _ b _ _ => ⟨b, .tuple, List.forall_mem_nil _⟩
  case nil => exact fun _ _ _ _ b _ _ => ⟨b, .nil, List.forall_mem_nil _⟩
  case cons =>
    intro a as iha ihas hplaced hseq hconst herr b hlen h
    obtain ⟨ha, has⟩ := List.forall_mem_append.mp h
    simp only [Arg.placedList, Arg.sequencesLastList, Arg.singlyConstList, Arg.anyContainsError,
      Bool.and_eq_true, Bool.or_eq_false_iff] at hplaced hseq hconst herr
    cases hsoak : soaking? ps a with
    | some i =>
      -- A sequence is the last argument, and takes the one stand-in.
      rw [hsoak] at hseq
      obtain rfl : as = [] := by simpa using hseq.1.2
      obtain ⟨rfl, hk⟩ := soaking?_eq_some hsoak
      obtain ⟨c, hc, hshows⟩ := Bindings.unify_face hlen hk (ha i List.mem_cons_self)
      exact ⟨c, .soak hsoak hc, List.forall_mem_singleton.mpr hshows⟩
    | none =>
      obtain ⟨c, hc, hshowsa⟩ := iha hsoak hplaced.1 hseq.1.1 hconst.1 herr.1 b hlen ha
      have hbinds := hc.binds
      obtain ⟨e, he, hshows⟩ := ihas hplaced.2 hseq.2 hconst.2 herr.2 c (hbinds.length.trans hlen)
        fun j hj => hbinds.awaits hshowsa (has j hj)
      refine ⟨e, .cons hsoak hc he, List.forall_mem_append.mpr ⟨fun j hj => ?_, hshows⟩⟩
      exact (hshowsa j hj).mono he.binds.le

end Deduce

/-! ## Substitution -/

theorem Dim.subst_of_stands {d : Dim} (hd : d.placed ps = true)
    (h : ∀ j ∈ d.mentions, b.Stands ps id j) : d.subst b = d.withStandIn id := by
  cases d with
  | known | standIn => rfl
  | param i =>
    obtain ⟨k, hk, hvalue⟩ := Deduce.any_kind? hd
    obtain ⟨t, hi⟩ := (h i List.mem_cons_self).get? hk
    cases k with
    | value => rw [subst, hi]; rfl
    | type | this | symbol | tuple => cases hvalue

theorem TemplateRef.subst_of_stands {r : TemplateRef} (hr : r.placed ps = true)
    (h : ∀ j ∈ r.mentions, b.Stands ps id j) : r.subst b = r.withStandIn id := by
  cases r with
  | symbol => rfl
  | param i =>
    obtain ⟨k, hk, hsymbol⟩ := Deduce.any_kind? hr
    obtain ⟨t, hi⟩ := (h i List.mem_cons_self).get? hk
    cases k with
    | symbol => rw [subst, hi]; rfl
    | type | this | value | tuple => cases hsymbol

variable (ps id b) in
/-- Where every parameter is bound to its face the bindings give the stand-ins. -/
theorem subst_of_stands :
    (∀ t : Ty, t.placed ps = true → (∀ j ∈ t.mentions, b.Stands ps id j) →
      t.subst b = t.withStandIns id) ∧
    (∀ a : Arg, a.placed ps = true → (∀ j ∈ a.mentions, b.Stands ps id j) →
      a.subst b = [a.withStandIns id]) ∧
    (∀ as : List Arg, Arg.placedList ps as = true →
      (∀ j ∈ Arg.mentionsList as, b.Stands ps id j) →
      Arg.substList b as = Arg.withStandInsList id as) := by
  refine Ty.induct ?basic ?named ?const ?ptr ?array ?staticArray ?inst ?param ?standIn ?error
    ?type ?value ?symbol ?tuple ?nil ?cons
  case basic | named | standIn => exact fun _ _ _ => rfl
  case error => exact fun _ _ => rfl
  case param =>
    intro i hplaced h
    obtain ⟨k, hk, htyped⟩ := Deduce.any_kind? hplaced
    obtain ⟨t, hi⟩ := (h i List.mem_cons_self).get? hk
    cases k with
    | type | this => rw [Ty.subst, hi]; rfl
    | value | symbol | tuple => cases htyped
  case const =>
    intro t ih hplaced h
    exact congrArg Ty.constant (ih hplaced h)
  case ptr | array =>
    intro t ih hplaced h
    exact congrArg _ (ih hplaced h)
  case staticArray =>
    intro t d ih hplaced h
    obtain ⟨hd, ht⟩ := List.forall_mem_append.mp h
    obtain ⟨hplacedt, hplacedd⟩ := Bool.and_eq_true_iff.mp hplaced
    rw [Ty.subst, ih hplacedt ht, Dim.subst_of_stands hplacedd hd, Ty.withStandIns]
  case inst =>
    intro r as ih hplaced h
    obtain ⟨hr, has⟩ := List.forall_mem_append.mp h
    obtain ⟨hplacedr, hplacedas⟩ := Bool.and_eq_true_iff.mp hplaced
    rw [Ty.subst, ih hplacedas has, TemplateRef.subst_of_stands hplacedr hr, Ty.withStandIns]
  case type =>
    intro t ih hplaced h
    by_cases ht : ∃ i, t = .param i
    · obtain ⟨i, rfl⟩ := ht
      obtain ⟨k, hk, hkind⟩ := Deduce.any_kind? hplaced
      obtain ⟨t, hi⟩ := (h i List.mem_cons_self).get? hk
      cases k with
      | type | this | tuple => rw [Arg.subst, Bindings.splice, hi]; rfl
      | value | symbol => cases hkind
    · have ht (i : ParamIdx) : t ≠ .param i := fun hi => ht ⟨i, hi⟩
      rw [Arg.placed_type ht] at hplaced
      rw [Arg.subst_type ht, ih hplaced h, Arg.withStandIns]
  case value => exact fun _ _ _ _ _ => rfl
  case symbol => exact fun _ _ _ => rfl
  case tuple => exact fun _ _ _ _ => rfl
  case nil => exact fun _ _ => rfl
  case cons =>
    intro a as iha ihas hplaced h
    obtain ⟨ha, has⟩ := List.forall_mem_append.mp h
    obtain ⟨hplaceda, hplacedas⟩ := Bool.and_eq_true_iff.mp hplaced
    rw [Arg.substList, iha hplaceda ha, ihas hplacedas has]
    rfl

theorem Dim.mentions_withStandIn (d : Dim) : (d.withStandIn id).mentions = [] := by cases d <;> rfl

theorem TemplateRef.mentions_withStandIn (r : TemplateRef) : (r.withStandIn id).mentions = [] := by
  cases r <;> rfl

variable (id) in
/-- With the stand-ins put in no parameter is left. -/
theorem mentions_withStandIns :
    (∀ t : Ty, (t.withStandIns id).mentions = []) ∧ (∀ a : Arg, (a.withStandIns id).mentions = []) ∧
    (∀ as : List Arg, Arg.mentionsList (Arg.withStandInsList id as) = []) := by
  refine Ty.induct ?basic ?named ?const ?ptr ?array ?staticArray ?inst ?param ?standIn ?error
    ?type ?value ?symbol ?tuple ?nil ?cons
  case basic | named | param | standIn | symbol => exact fun _ => rfl
  case error | nil => rfl
  case const => exact fun t ih => (Ty.mentions_constant _).trans ih
  case ptr | array | type => exact fun t ih => ih
  case staticArray => exact fun t d ih => List.append_eq_nil_iff.mpr ⟨d.mentions_withStandIn, ih⟩
  case inst => exact fun r as ih => List.append_eq_nil_iff.mpr ⟨r.mentions_withStandIn, ih⟩
  case value => exact fun _ _ _ => rfl
  case tuple => exact fun _ _ => rfl
  case cons => exact fun a as iha ihas => List.append_eq_nil_iff.mpr ⟨iha, ihas⟩

theorem Ty.hasParams_withStandIns (t : Ty) : (t.withStandIns id).hasParams = false :=
  Ty.hasParams_eq_false.mpr ((mentions_withStandIns id).1 t)

end Templates
