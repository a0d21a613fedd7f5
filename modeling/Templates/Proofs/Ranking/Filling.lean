import Templates.Ty.Queries
import Templates.Proofs.Deduction.Sound

/-!
# Arguments in the place of stand-ins

A filling says what is put in the place of each stand-in. A pattern without stand-ins stays as it is
(`fill_of_plain`), and filling what bindings make of it is what the filled bindings make of it
(`fill_subst`), unless the filling gives an array something that is not a length.
-/

namespace Templates

/-- What is put in the place of each stand-in. -/
structure Filling where
  ty : Placeholder → Ty
  const : Placeholder → Const
  dim : Placeholder → Dim
  symbol : SymbolId → SymbolId
  symbol_of_real {s : SymbolId} : s.isPlaceholder = false → symbol s = s

def Const.fill (f : Filling) : Const → Const
  | .standIn p => f.const p
  | c => c

def Dim.fill (f : Filling) : Dim → Dim
  | .standIn p => f.dim p
  | d => d

def TemplateRef.fill (f : Filling) : TemplateRef → TemplateRef
  | .symbol s => .symbol (f.symbol s)
  | .param i => .param i

mutual

/-- Two that are `const` by the filling only become one. -/
def Ty.fill (f : Filling) : Ty → Ty
  | .standIn p => f.ty p
  | .const t => if t.isConst then .const (t.fill f) else (t.fill f).constant
  | .ptr t => .ptr (t.fill f)
  | .array t => .array (t.fill f)
  | .staticArray t d => .staticArray (t.fill f) (d.fill f)
  | .inst r args => .inst (r.fill f) (Arg.fillList f args)
  | .basic b => .basic b
  | .named s => .named s
  | .param i => .param i
  | .error => .error

def Arg.fill (f : Filling) : Arg → Arg
  | .type t => .type (t.fill f)
  | .value t c => .value (t.fill f) (c.fill f)
  | .symbol s => .symbol (f.symbol s)
  | .tuple elems => .tuple (Arg.fillList f elems)

def Arg.fillList (f : Filling) : List Arg → List Arg
  | [] => []
  | a :: as => a.fill f :: Arg.fillList f as

end

def Bindings.fill (f : Filling) (b : Bindings) : Bindings := b.map (Option.map (Arg.fill f))

/-! ## What is asked of a type -/

/-- What is asked at the places of a type. -/
structure Places where
  /-- Of what is `const`. -/
  const : Ty → Prop := fun _ => True
  standIn : Placeholder → Prop := fun _ => True
  dim : Dim → Prop := fun _ => True
  symbol : SymbolId → Prop := fun _ => True
  value : Const → Prop := fun _ => True
  /-- Of a parameter in the place of an argument of an instance. -/
  bare : ParamIdx → Prop := fun _ => True

def TemplateRef.All (w : Places) : TemplateRef → Prop
  | .symbol s => w.symbol s
  | .param _ => True

mutual

def Ty.All (w : Places) : Ty → Prop
  | .basic _ | .named _ | .param _ | .error => True
  | .standIn p => w.standIn p
  | .const t => w.const t ∧ t.All w
  | .ptr t | .array t => t.All w
  | .staticArray t d => t.All w ∧ w.dim d
  | .inst r args => r.All w ∧ Arg.AllList w args

def Arg.All (w : Places) : Arg → Prop
  | .type (.param i) => w.bare i
  | .type t => t.All w
  | .value t c => t.All w ∧ w.value c
  | .symbol s => w.symbol s
  | .tuple elems => Arg.AllList w elems

def Arg.AllList (w : Places) : List Arg → Prop
  | [] => True
  | a :: as => a.All w ∧ Arg.AllList w as

end

/-- No stand-ins. -/
def Places.plain : Places where
  standIn _ := False
  dim d := ∀ p, d ≠ .standIn p
  symbol s := s.isPlaceholder = false
  value c := ∀ p, c ≠ .standIn p

/-- The filling gives a length. -/
def Dim.Measured (f : Filling) : Dim → Prop
  | .standIn p => Deduce.lengthConst? (f.dim p) = some (f.const p)
  | _ => True

/-- Arrays get lengths. -/
def Places.measured (f : Filling) : Places where
  dim := Dim.Measured f

/-- Arrays get lengths, and what is `const` is not made so twice. -/
def Places.proper (f : Filling) : Places where
  const t := (Ty.const t).fill f = .const (t.fill f)
  dim := Dim.Measured f

section

variable {f : Filling} {w : Places}

theorem Ty.fill_constant (t : Ty) : t.constant.fill f = (t.fill f).constant := by
  cases t with
  | const t =>
    change (Ty.const t).fill f = ((Ty.const t).fill f).constant
    rw [Ty.fill]
    split
    · rfl
    · rw [Ty.constant_constant]
  | _ => exact if_neg Bool.false_ne_true

theorem Arg.fillList_eq_map (as : List Arg) : Arg.fillList f as = as.map (Arg.fill f) := by
  induction as with
  | nil => rfl
  | cons a as ih => exact congrArg (a.fill f :: ·) ih

theorem Arg.allList_append {as bs : List Arg} :
    Arg.AllList w (as ++ bs) ↔ Arg.AllList w as ∧ Arg.AllList w bs := by
  induction as with
  | nil => exact ⟨fun h => ⟨trivial, h⟩, And.right⟩
  | cons a as ih => rw [List.cons_append, AllList, AllList, ih, and_assoc]

theorem Arg.fillList_append (as bs : List Arg) :
    Arg.fillList f (as ++ bs) = Arg.fillList f as ++ Arg.fillList f bs := by
  rw [fillList_eq_map, fillList_eq_map, fillList_eq_map, List.map_append]

theorem Arg.all_type_of_ne {t : Ty} (h : ∀ i, t ≠ .param i) : (Arg.type t).All w ↔ t.All w := by
  cases t with
  | param i => exact absurd rfl (h i)
  | _ => exact Iff.rfl

/-- Where nothing is asked of parameters a type is asked for the same as an argument. -/
theorem Arg.all_type (h : ∀ i, w.bare i) (t : Ty) : (Arg.type t).All w ↔ t.All w := by
  cases t with
  | param i => exact ⟨fun _ => trivial, fun _ => h i⟩
  | _ => exact Iff.rfl

variable (f) in
theorem measured_of_proper :
    (∀ t : Ty, t.All (.proper f) → t.All (.measured f)) ∧
    (∀ a : Arg, a.All (.proper f) → a.All (.measured f)) ∧
    (∀ as : List Arg, Arg.AllList (.proper f) as → Arg.AllList (.measured f) as) := by
  refine Ty.induct ?basic ?named ?const ?ptr ?array ?staticArray ?inst ?param ?standIn ?error
    ?type ?value ?symbol ?tuple ?nil ?cons
  case basic | named | param | standIn | symbol => exact fun _ _ => trivial
  case error | nil => exact fun _ => trivial
  case ptr | array | tuple => exact fun _ ih h => ih h
  case const => exact fun _ ih h => ⟨trivial, ih h.2⟩
  case staticArray => exact fun _ _ ih h => ⟨ih h.1, h.2⟩
  case inst =>
    intro r as ih h
    refine ⟨?_, ih h.2⟩
    cases r <;> trivial
  case type =>
    intro t ih h
    rw [Arg.all_type fun _ => trivial] at h ⊢
    exact ih h
  case value => exact fun _ _ ih h => ⟨ih h.1, trivial⟩
  case cons => exact fun _ _ iha ihas h => ⟨iha h.1, ihas h.2⟩

/-! ## Patterns -/

theorem Const.fill_of_plain {c : Const} (h : ∀ p, c ≠ .standIn p) : c.fill f = c := by
  cases c with
  | standIn p => exact absurd rfl (h p)
  | _ => rfl

theorem Dim.fill_of_plain {d : Dim} (h : ∀ p, d ≠ .standIn p) : d.fill f = d ∧ d.Measured f := by
  cases d with
  | standIn p => exact absurd rfl (h p)
  | _ => exact ⟨rfl, trivial⟩

theorem TemplateRef.fill_of_plain {r : TemplateRef} (h : r.All .plain) : r.fill f = r := by
  cases r with
  | symbol s => exact congrArg TemplateRef.symbol (f.symbol_of_real h)
  | param => rfl

variable (f) in
/-- A pattern without stand-ins stays as it is. -/
theorem fill_of_plain :
    (∀ t : Ty, t.All .plain → t.fill f = t ∧ t.All (.proper f)) ∧
    (∀ a : Arg, a.All .plain → a.fill f = a ∧ a.All (.proper f)) ∧
    (∀ as : List Arg, Arg.AllList .plain as →
      Arg.fillList f as = as ∧ Arg.AllList (.proper f) as) := by
  refine Ty.induct ?basic ?named ?const ?ptr ?array ?staticArray ?inst ?param ?standIn ?error
    ?type ?value ?symbol ?tuple ?nil ?cons
  case basic | named | param =>
    intro x _
    exact ⟨rfl, trivial⟩
  case error => exact fun _ => ⟨rfl, trivial⟩
  case standIn => exact fun p h => h.elim
  case const =>
    intro t ih h
    obtain ⟨ht, hp⟩ := ih h.2
    have hc : (Ty.const t).fill f = .const t := by
      rw [Ty.fill, ht]
      split
      · rfl
      · cases t <;> first | rfl | contradiction
    refine ⟨hc, ?_, hp⟩
    change _ = _
    rw [hc, ht]
  case ptr | array =>
    intro t ih h
    obtain ⟨ht, hp⟩ := ih h
    exact ⟨congrArg _ ht, hp⟩
  case staticArray =>
    intro t d ih h
    obtain ⟨ht, hp⟩ := ih h.1
    obtain ⟨hd, hm⟩ := Dim.fill_of_plain (f := f) h.2
    exact ⟨by rw [Ty.fill, ht, hd], hp, hm⟩
  case inst =>
    intro r as ih h
    obtain ⟨has, hp⟩ := ih h.2
    refine ⟨by rw [Ty.fill, TemplateRef.fill_of_plain h.1, has], ?_, hp⟩
    cases r <;> trivial
  case type =>
    intro t ih h
    rw [Arg.all_type fun _ => trivial] at h ⊢
    exact ⟨congrArg Arg.type (ih h).1, (ih h).2⟩
  case value =>
    intro t c ih h
    obtain ⟨ht, hp⟩ := ih h.1
    exact ⟨by rw [Arg.fill, ht, Const.fill_of_plain h.2], hp, trivial⟩
  case symbol =>
    intro s h
    exact ⟨congrArg Arg.symbol (f.symbol_of_real h), trivial⟩
  case tuple =>
    intro as ih h
    exact ⟨congrArg Arg.tuple (ih h).1, (ih h).2⟩
  case nil => exact fun _ => ⟨rfl, trivial⟩
  case cons =>
    intro a as iha ihas h
    obtain ⟨ha, hpa⟩ := iha h.1
    obtain ⟨has, hpas⟩ := ihas h.2
    exact ⟨by rw [Arg.fillList, ha, has], hpa, hpas⟩

/-! ## Bindings -/

variable {b c : Bindings} {i : ParamIdx} {a : Arg}

theorem Bindings.get?_fill (b : Bindings) (i : ParamIdx) :
    (b.fill f).get? i = (b.get? i).map (Arg.fill f) := get?_map ..

theorem Bindings.fill_free (n : Nat) : (Bindings.free n).fill f = .free n := List.map_replicate

theorem Bindings.fill_ofArgs (as : List Arg) :
    (Bindings.ofArgs as).fill f = .ofArgs (Arg.fillList f as) := by
  rw [Arg.fillList_eq_map, fill, ofArgs, ofArgs, List.map_map, List.map_map]
  rfl

/-- What is bound with stand-ins is bound when they are filled. -/
theorem Bindings.unify_fill (h : b.unify i a = some c) :
    (b.fill f).unify i (a.fill f) = some (c.fill f) := unify_map _ h

theorem Arg.leaves_fill (a : Arg) : (a.fill f).leaves = a.leaves.map (Arg.fill f) := by
  cases a with
  | tuple elems => exact Arg.fillList_eq_map elems
  | _ => rfl

theorem Arg.ofList_fill (as : List Arg) :
    (Arg.ofList as).fill f = .ofList (Arg.fillList f as) := by
  rw [ofList, fill, fillList_eq_map, fillList_eq_map, ← flatten_map leaves_fill, ofList]

theorem Bindings.splice_fill (b : Bindings) (i : ParamIdx) :
    Arg.fillList f (b.splice i) = (b.fill f).splice i := by
  unfold splice
  rw [get?_fill]
  rcases b.get? i with _ | a
  · rfl
  · cases a <;> rfl

/-! ## Substitution -/

theorem Dim.fill_subst {d : Dim} (h : ∀ p, d ≠ .standIn p) (hm : (d.subst b).Measured f) :
    (d.subst b).fill f = d.subst (b.fill f) := by
  cases d with
  | known => rfl
  | standIn p => exact absurd rfl (h p)
  | param i =>
    unfold Dim.subst at hm ⊢
    dsimp only at hm ⊢
    rw [Bindings.get?_fill]
    cases hb : b.get? i with
    | none => rfl
    | some a =>
      rw [hb] at hm
      cases a with
      | type | symbol | tuple => rfl
      | value t c =>
        cases c with
        | bool | char | str | null => rfl
        | int n =>
          change Dim.fill f (if _ then _ else _) = if _ then _ else _
          split <;> rfl
        | standIn p =>
          -- the length that the filling gives is the one that its constant gives
          change Deduce.lengthConst? (f.dim p) = some (f.const p) at hm
          rw [Option.map_some, Arg.fill, Const.fill]
          change f.dim p = _
          cases hd : f.dim p with
          | param =>
            rw [hd] at hm
            cases hm
          | standIn q =>
            rw [hd] at hm
            rw [← Option.some.inj hm]
          | known n =>
            rw [hd] at hm
            rw [← Option.some.inj hm]
            dsimp only
            rw [if_pos ⟨Int.natCast_nonneg _, Nat.le_of_lt_succ n.toNat_lt⟩]
            simp

theorem TemplateRef.fill_subst {r : TemplateRef} (h : r.All .plain) :
    (r.subst b).fill f = r.subst (b.fill f) := by
  cases r with
  | symbol s => exact TemplateRef.fill_of_plain h
  | param i =>
    unfold TemplateRef.subst
    dsimp only
    rw [Bindings.get?_fill]
    rcases b.get? i with _ | a
    · rfl
    · cases a <;> rfl

theorem Ty.all_constant (h : ∀ u, w.const u) (t : Ty) : t.constant.All w ↔ t.All w := by
  cases t with
  | const t => exact Iff.rfl
  | _ => exact ⟨And.right, fun ht => ⟨h _, ht⟩⟩

variable (f b) in
/-- Filling the pattern with the bindings put in is putting in the filled bindings. -/
theorem fill_subst :
    (∀ t : Ty, t.All .plain → (t.subst b).All (.measured f) →
      (t.subst b).fill f = t.subst (b.fill f)) ∧
    (∀ a : Arg, a.All .plain → Arg.AllList (.measured f) (a.subst b) →
      Arg.fillList f (a.subst b) = a.subst (b.fill f)) ∧
    (∀ as : List Arg, Arg.AllList .plain as → Arg.AllList (.measured f) (Arg.substList b as) →
      Arg.fillList f (Arg.substList b as) = Arg.substList (b.fill f) as) := by
  refine Ty.induct ?basic ?named ?const ?ptr ?array ?staticArray ?inst ?param ?standIn ?error
    ?type ?value ?symbol ?tuple ?nil ?cons
  case basic | named => exact fun _ _ _ => rfl
  case error => exact fun _ _ => rfl
  case standIn => exact fun p h => h.elim
  case param =>
    intro i _ _
    rw [Ty.subst, Ty.subst, Bindings.get?_fill]
    rcases b.get? i with _ | _ | _ | _ | _ <;> rfl
  case const =>
    intro t ih h hm
    rw [Ty.subst, Ty.subst, Ty.fill_constant,
      ih h.2 ((Ty.all_constant (fun _ => trivial) _).mp hm)]
  case ptr | array =>
    intro t ih h hm
    exact congrArg _ (ih h hm)
  case staticArray =>
    intro t d ih h hm
    rw [Ty.subst, Ty.subst, Ty.fill, ih h.1 hm.1, Dim.fill_subst h.2 hm.2]
  case inst =>
    intro r as ih h hm
    rw [Ty.subst, Ty.subst, Ty.fill, ih h.2 hm.2, TemplateRef.fill_subst h.1]
  case type =>
    intro t ih h hm
    by_cases ht : ∃ i, t = .param i
    · obtain ⟨i, rfl⟩ := ht
      exact Bindings.splice_fill b i
    · have ht (i : ParamIdx) : t ≠ .param i := fun hi => ht ⟨i, hi⟩
      rw [Arg.subst_type ht] at hm ⊢
      rw [Arg.subst_type ht, Arg.fillList, Arg.fill, Arg.fillList,
        ih ((Arg.all_type (fun _ => trivial) t).mp h)
          ((Arg.all_type (fun _ => trivial) _).mp hm.1)]
  case value =>
    intro t c _ h _
    exact congrArg (fun a => [a]) ((fill_of_plain f).2.1 (.value t c) h).1
  case symbol =>
    intro s h _
    exact congrArg (fun a => [a]) ((fill_of_plain f).2.1 (.symbol s) h).1
  case tuple =>
    intro as _ h _
    exact congrArg (fun a => [a]) ((fill_of_plain f).2.1 (.tuple as) h).1
  case nil => exact fun _ _ => rfl
  case cons =>
    intro a as iha ihas h hm
    obtain ⟨hma, hmas⟩ := Arg.allList_append.mp hm
    rw [Arg.substList, Arg.substList, Arg.fillList_append, iha h.1 hma, ihas h.2 hmas]

end

end Templates
