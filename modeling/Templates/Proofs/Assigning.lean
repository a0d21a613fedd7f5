import Templates.Proofs.Deduction.Places
import Templates.Proofs.Ranking.Filling

/-!
# Unknowns that become known

The stand-ins in a type may be unknowns, to which an assignment gives types and lengths. A type with
unknowns that fits a pattern fits it at the same level, with the same bindings, when they become known
(`Deduce.ty_assign_iff`). A length is bound with the declared type of its parameter, so no unknown may
stand there that becomes known too.
-/

namespace Templates

/-- What unknowns are. -/
structure Assignment where
  ty : Placeholder → Ty
  /-- A length that is not given stays unknown. -/
  length? : Placeholder → Option UInt64

def Const.assign (s : Assignment) : Const → Const
  | .standIn p => ((s.length? p).map fun n => .int n.toNat).getD (.standIn p)
  | c => c

def Dim.assign (s : Assignment) : Dim → Dim
  | .standIn p => ((s.length? p).map .known).getD (.standIn p)
  | d => d

mutual

/-- The type with each unknown replaced, node by node. -/
def Ty.assign (s : Assignment) : Ty → Ty
  | .standIn p => s.ty p
  | .const t => .const (t.assign s)
  | .ptr t => .ptr (t.assign s)
  | .array t => .array (t.assign s)
  | .staticArray t d => .staticArray (t.assign s) (d.assign s)
  | .inst r args => .inst r (Arg.assignList s args)
  | .basic b => .basic b
  | .named x => .named x
  | .param i => .param i
  | .error => .error

def Arg.assign (s : Assignment) : Arg → Arg
  | .type t => .type (t.assign s)
  | .value t c => .value (t.assign s) (c.assign s)
  | .symbol x => .symbol x
  | .tuple elems => .tuple (Arg.assignList s elems)

def Arg.assignList (s : Assignment) : List Arg → List Arg
  | [] => []
  | a :: as => a.assign s :: Arg.assignList s as

end

def Bindings.assign (s : Assignment) (b : Bindings) : Bindings := b.map (Option.map (Arg.assign s))

/-- No unknowns. -/
def Places.known : Places where
  standIn _ := False
  dim d := ∀ p, d ≠ .standIn p
  value c := ∀ p, c ≠ .standIn p

variable {s : Assignment} {ps : List Param} {b c e : Bindings} {l : Level} {i : ParamIdx} {n : Nat}

theorem Arg.assignList_eq_map (as : List Arg) : Arg.assignList s as = as.map (Arg.assign s) := by
  induction as with
  | nil => rfl
  | cons a as ih => exact congrArg (a.assign s :: ·) ih

theorem Arg.leaves_assign (a : Arg) : (a.assign s).leaves = a.leaves.map (Arg.assign s) := by
  cases a with
  | tuple elems => exact Arg.assignList_eq_map elems
  | _ => rfl

theorem Arg.ofList_assign (as : List Arg) :
    (Arg.ofList as).assign s = .ofList (Arg.assignList s as) := by
  rw [ofList, assign, assignList_eq_map, assignList_eq_map, ← flatten_map leaves_assign, ofList]

theorem Arg.isLeaf_assign (a : Arg) : (a.assign s).isLeaf = a.isLeaf := by cases a <;> rfl

theorem ParamKind.takes_assign (k : ParamKind) (a : Arg) : k.takes (a.assign s) = k.takes a := by
  cases k <;> cases a <;> rfl

theorem Bindings.assign_free (n : Nat) : (Bindings.free n).assign s = .free n := List.map_replicate

theorem Bindings.unify_assign {a : Arg} (h : b.unify i a = some c) :
    (b.assign s).unify i (a.assign s) = some (c.assign s) := unify_map _ h

/-! ## What is known -/

theorem Const.assign_of_known {c : Const} (h : ∀ p, c ≠ .standIn p) : c.assign s = c := by
  cases c with
  | standIn p => exact absurd rfl (h p)
  | _ => rfl

theorem Dim.assign_of_known {d : Dim} (h : ∀ p, d ≠ .standIn p) : d.assign s = d := by
  cases d with
  | standIn p => exact absurd rfl (h p)
  | _ => rfl

variable (s) in
/-- What holds no unknowns stays as it is. -/
theorem assign_of_known :
    (∀ t : Ty, t.All .known → t.assign s = t) ∧
    (∀ a : Arg, a.All .known → a.assign s = a) ∧
    (∀ as : List Arg, Arg.AllList .known as → Arg.assignList s as = as) := by
  refine Ty.induct ?basic ?named ?const ?ptr ?array ?staticArray ?inst ?param ?standIn ?error
    ?type ?value ?symbol ?tuple ?nil ?cons
  case basic | named | param | symbol => exact fun _ _ => rfl
  case error | nil => exact fun _ => rfl
  case standIn => exact fun p h => h.elim
  case const => exact fun t ih h => congrArg Ty.const (ih h.2)
  case ptr => exact fun t ih h => congrArg Ty.ptr (ih h)
  case array => exact fun t ih h => congrArg Ty.array (ih h)
  case staticArray =>
    intro t d ih h
    rw [Ty.assign, ih h.1, Dim.assign_of_known h.2]
  case inst => exact fun r as ih h => congrArg (Ty.inst r) (ih h.2)
  case type =>
    intro t ih h
    exact congrArg Arg.type (ih ((Arg.all_type (fun _ => trivial) t).mp h))
  case value =>
    intro t c ih h
    rw [Arg.assign, ih h.1, Const.assign_of_known h.2]
  case tuple => exact fun as ih h => congrArg Arg.tuple (ih h)
  case cons =>
    intro a as iha ihas h
    rw [Arg.assignList, iha h.1, ihas h.2]

/-! ## Lengths of a pattern -/

theorem Arg.length_mem_places {a : Arg} (last : Bool) :
    .param .length i ∈ a.places last ↔ .param .length i ∈ a.places false := by
  cases a with
  | type t => cases t <;> simp [places]
  | _ => exact Iff.rfl

namespace Deduce

namespace Goal

def assign (s : Assignment) : Goal → Goal
  | .ty t pat => .ty (t.assign s) pat
  | .arg a pat => .arg (a.assign s) pat
  | .args as pats => .args (Arg.assignList s as) pats

/-- The pattern holds no unknowns. -/
def KnownPattern : Goal → Prop
  | .ty _ pat => pat.All .known
  | .arg _ pat => pat.All .known
  | .args _ pats => Arg.AllList .known pats

/-- The pattern uses the parameter as a length. -/
def Measures (i : ParamIdx) : Goal → Prop
  | .ty _ pat => .param .length i ∈ pat.places
  | .arg _ pat => .param .length i ∈ pat.places false
  | .args _ pats => .param .length i ∈ Arg.placesList pats

/-- The types that lengths of the pattern get hold nothing that becomes known. -/
def KeepsLengths (ps : List Param) (s : Assignment) (g : Goal) : Prop :=
  ∀ ⦃i p⦄, g.Measures i → kind? ps i = some (.value p) → (lengthTy p).assign s = lengthTy p

theorem measures_type {t p : Ty} (h : ∀ i, p ≠ .param i) :
    (Goal.arg (.type t) (.type p)).Measures i ↔ (Goal.ty t p).Measures i := by
  change .param .length i ∈ Arg.places false (.type p) ↔ _
  rw [Arg.places_type h]
  exact Iff.rfl

theorem measures_cons {a p : Arg} {as pats : List Arg} :
    (Goal.args (a :: as) (p :: pats)).Measures i ↔
      (Goal.arg a p).Measures i ∨ (Goal.args as pats).Measures i := by
  change .param .length i ∈ p.places pats.isEmpty ++ Arg.placesList pats ↔ _
  rw [List.mem_append, Arg.length_mem_places]
  exact Iff.rfl

end Goal

/-! ## Steps -/

theorem tyParam_assign {t : Ty} (h : tyParam ps i t b = some c) :
    tyParam ps i (t.assign s) (b.assign s) = some (c.assign s) := by
  obtain ⟨k, hk, ht, hu⟩ := tyParam_eq_some h
  rw [tyParam_of_takes hk ((k.takes_assign (.type t)).trans ht)]
  exact Bindings.unify_assign hu

theorem argParam_assign {a : Arg} (h : argParam ps i a b = some c) :
    argParam ps i (a.assign s) (b.assign s) = some (c.assign s) := by
  obtain ⟨ha, k, hk, ht, hu⟩ := argParam_eq_some h
  rw [argParam_of_takes hk (a.isLeaf_assign.trans ha) ((k.takes_assign a).trans ht)]
  exact Bindings.unify_assign hu

theorem templateRef_assign {r q : TemplateRef} (h : templateRef ps r q b = some c) :
    templateRef ps r q (b.assign s) = some (c.assign s) := by
  obtain ⟨rfl, hq, rfl⟩ | ⟨i, p, x, rfl, rfl, hk, hu⟩ := templateRef_eq_some h
  · cases q with
    | param => cases h
    | symbol => exact if_pos rfl
  · rw [templateRef, hk]
    exact Bindings.unify_assign hu

theorem lengthConst?_assign {d : Dim} {x : Const} (h : lengthConst? d = some x) :
    lengthConst? (d.assign s) = some (x.assign s) := by
  cases d with
  | param => cases h
  | known n =>
    cases h
    rfl
  | standIn p =>
    cases h
    rw [Dim.assign, Const.assign]
    cases s.length? p <;> rfl

theorem dim_assign {d m : Dim} (hm : ∀ p, m ≠ .standIn p)
    (hlen : ∀ ⦃i p⦄, m = .param i → kind? ps i = some (.value p) →
      (lengthTy p).assign s = lengthTy p)
    (h : dim ps d m b = some c) : dim ps (d.assign s) m (b.assign s) = some (c.assign s) := by
  obtain ⟨rfl, hmentions, rfl⟩ | ⟨i, p, x, rfl, hk, hx, hu⟩ := dim_eq_some h
  · rw [Dim.assign_of_known hm]
    cases m with
    | param => cases hmentions
    | known => exact if_pos rfl
    | standIn p => exact absurd rfl (hm p)
  · have hu := Bindings.unify_assign (s := s) hu
    rw [Arg.assign, hlen rfl hk] at hu
    rw [dim, hk, lengthConst?_assign hx]
    exact hu

/-! ## Derivations -/

/-- The steps are the same when unknowns become known. -/
theorem Derives.assign {g : Goal} (h : Derives ps g b l c) (hg : g.KnownPattern)
    (hlen : g.KeepsLengths ps s) : Derives ps (g.assign s) (b.assign s) l (c.assign s) := by
  induction h with
  | param h => exact .param (tyParam_assign h)
  | argParam h => exact .argParam (argParam_assign h)
  | const _ ih => exact .const (ih hg.2 fun i p hi => hlen (List.mem_cons_of_mem _ hi))
  | unqualify hi hq _ ih => exact .unqualify hi hq (ih hg hlen)
  | basic => exact .basic
  | named => exact .named
  | standIn => exact hg.elim
  | ptr _ ih => exact .ptr (ih hg hlen)
  | array _ ih => exact .array (ih hg hlen)
  | @staticArray t p d m _ _ _ _ _ hd ih =>
    refine .staticArray (ih hg.1 fun i p hi => hlen (List.mem_append_left _ hi)) ?_
    refine dim_assign hg.2 (fun i p hm => hlen (List.mem_append_right _ ?_)) hd
    rw [hm]
    exact List.mem_singleton_self _
  | inst hr _ ih =>
    exact .inst (templateRef_assign hr) (ih hg.2 fun i p hi => hlen (List.mem_append_right _ hi))
  | @type t p _ _ _ hi _ ih =>
    refine .type hi (ih ((Arg.all_type_of_ne hi).mp hg) fun i p hm => hlen ?_)
    exact (Goal.measures_type hi).mpr hm
  | @value t u x _ =>
    change Derives ps (.arg (.value (t.assign s) (x.assign s)) (.value u x)) _ _ _
    rw [Const.assign_of_known hg.2]
    exact .value
  | symbol => exact .symbol
  | @tuple as _ =>
    change Derives ps (.arg ((Arg.tuple as).assign s) (.tuple as)) _ _ _
    rw [(assign_of_known s).2.1 _ hg]
    exact .tuple
  | nil => exact .nil
  | soak hi h =>
    refine .soak hi ?_
    rw [← Arg.ofList_assign]
    exact Bindings.unify_assign h
  | cons hi _ _ iha ihas =>
    refine .cons hi (iha hg.1 fun i p hm => hlen ?_) (ihas hg.2 fun i p hm => hlen ?_)
    · exact Goal.measures_cons.mpr (.inl hm)
    · exact Goal.measures_cons.mpr (.inr hm)

/-- A parameter that is used as a length is bound to a value of the type that lengths get. -/
theorem Derives.length_bound {g : Goal} (h : Derives ps g b l c) (hc : c.Le e)
    (hi : g.Measures i) : ∃ p x, kind? ps i = some (.value p) ∧
      e.get? i = some (.value (lengthTy p) x) := by
  induction h with
  | param | argParam => simp [Goal.Measures, Ty.places, Arg.places] at hi
  | const _ ih =>
    rcases List.mem_cons.mp hi with hit | hit
    · cases hit
    · exact ih hc hit
  | unqualify _ _ _ ih | ptr _ ih | array _ ih => exact ih hc hi
  | basic | named | standIn | value | symbol | tuple | nil => cases hi
  | @staticArray t p d m _ _ _ _ _ hd ih =>
    rcases List.mem_append.mp hi with hip | him
    · exact ih ((dim_binds hd).le.trans hc) hip
    · obtain ⟨rfl, hm, -⟩ | ⟨j, p, x, rfl, hk, -, hu⟩ := dim_eq_some hd
      · cases m with
        | param => cases hm
        | known | standIn => cases him
      · cases List.mem_singleton.mp him
        exact ⟨p, x, hk, hc (Bindings.get?_unify hu)⟩
  | @inst r q as pats _ _ _ _ _ _ ih =>
    rcases List.mem_append.mp hi with hiq | hias
    · cases q <;> simp [TemplateRef.places] at hiq
    · exact ih hc hias
  | type hp _ ih => exact ih hc ((Goal.measures_type hp).mp hi)
  | soak hs =>
    obtain ⟨rfl, -⟩ := soaking?_eq_some hs
    simp [Goal.Measures, Arg.placesList, Arg.places] at hi
  | cons _ _ has iha ihas =>
    rcases Goal.measures_cons.mp hi with hia | hias
    · exact iha (has.binds.le.trans hc) hia
    · exact ihas hc hias

variable {t pat : Ty}

/-- **What fits with unknowns fits when they become known.** A deduction that begins without bindings
and succeeds, succeeds at the same level with the same bindings, all unknowns replaced, if and only if
the types that lengths of the pattern get hold nothing that becomes known. -/
theorem ty_assign_iff (hpat : pat.All .known) (h : ty ps t pat (.free n) = some (l, c)) :
    ty ps (t.assign s) pat (.free n) = some (l, c.assign s) ↔
      ∀ ⦃i p⦄, .param .length i ∈ pat.places → kind? ps i = some (.value p) →
        (lengthTy p).assign s = lengthTy p := by
  have hd : Derives ps (.ty t pat) (.free n) l c := run_eq_some_iff.mp h
  constructor
  · intro h' i p hi hp
    have hd' : Derives ps (.ty (t.assign s) pat) (.free n) l (c.assign s) :=
      run_eq_some_iff.mp h'
    obtain ⟨_, x, hp₁, hx⟩ := hd.length_bound (.refl c) hi
    obtain ⟨_, y, hp₂, hy⟩ := hd'.length_bound (.refl _) hi
    cases hp.symm.trans hp₁
    cases hp.symm.trans hp₂
    rw [Bindings.assign, Bindings.get?_map, hx] at hy
    exact (Arg.value.inj (Option.some.inj hy)).1
  · intro hlen
    have hd' := hd.assign hpat hlen
    rw [Bindings.assign_free] at hd'
    exact hd'.run

/-- Whatever fits with unknowns fits when they become known. -/
def IsStable (ps : List Param) (s : Assignment) : Prop :=
  ∀ ⦃t pat : Ty⦄ ⦃l : Level⦄ ⦃c : Bindings⦄, pat.All .known →
    ty ps t pat (.free ps.length) = some (l, c) →
    ty ps (t.assign s) pat (.free ps.length) = some (l, c.assign s)

end Deduce

/-! ## Unknowns on the shelf -/

/-- The unknowns are a `const(char)`, a type `bool` and the length 4. -/
def unpacked : Assignment where
  ty p := if p.param = ⟨0⟩ then .const .char else .bool
  length? _ := some 4

def unknown (i : Nat) : Placeholder := ⟨⟨9⟩, ⟨i⟩⟩

/-- An instance that fits the pattern on the shelf, with unknowns in it. -/
def sealedTy : Ty :=
  .const (.inst (.symbol ⟨7⟩) [.type (.ptr (.const (.standIn (unknown 0)))),
    .type (.staticArray .int (.standIn (unknown 1))), .value .ulong (.int 3), .symbol ⟨5⟩,
    .type (.standIn (unknown 2)), .value (.standIn (unknown 2)) (.standIn (unknown 1))])

/-- What is found with unknowns in it. -/
def sealedArgs : List Arg :=
  [.type (.const (.standIn (unknown 0))), .symbol ⟨7⟩, .value .int (.standIn (unknown 1)),
    .tuple [.symbol ⟨5⟩, .type (.standIn (unknown 2)),
      .value (.standIn (unknown 2)) (.standIn (unknown 1))]]

/-- The type of the one length on the shelf is `int`. -/
theorem ty_assign_shelf : shelfPattern.All .known ∧
    Deduce.ty shelfParams sealedTy shelfPattern (.free 4) = some (.exact, .ofArgs sealedArgs) ∧
    Deduce.ty shelfParams (sealedTy.assign unpacked) shelfPattern (.free 4) = some (.exact, .ofArgs
      [.type (.const (.const .char)), .symbol ⟨7⟩, .value .int (.int 4),
        .tuple [.symbol ⟨5⟩, .type .bool, .value .bool (.int 4)]]) := by
  have hknown : shelfPattern.All .known :=
    ⟨trivial, trivial, trivial, ⟨trivial, nofun⟩, ⟨trivial, nofun⟩, trivial, trivial⟩
  have hsealed : Deduce.ty shelfParams sealedTy shelfPattern (.free 4) =
      some (.exact, .ofArgs sealedArgs) := rfl
  refine ⟨hknown, hsealed, (Deduce.ty_assign_iff hknown hsealed).mpr fun i p _ hp => ?_⟩
  match i, hp with
  | ⟨2⟩, rfl => rfl

/-- `T : int[n]` and `n`, the type of which is an unknown. -/
def pledgedParams : List Param :=
  [{ name := "T", kind := .type { spec := some (.staticArray .int (.param ⟨1⟩)) } },
    { name := "n", kind := .value { ty := .standIn (unknown 0) } }]

/-- Every unknown type is `int`, every unknown length is 3. -/
def allThrees : Assignment where
  ty _ := .int
  length? _ := some 3

/-- `int[n]` takes the length 3 with the declared type of `n`, and that is not `int`. -/
theorem not_isStable_pledged :
    (∀ p, (allThrees.ty p).hasParams = false) ∧ ¬Deduce.IsStable pledgedParams allThrees := by
  refine ⟨fun _ => rfl, fun hstable => ?_⟩
  have hknown : (Ty.staticArray .int (.param ⟨1⟩)).All .known := ⟨trivial, nofun⟩
  have h : Deduce.ty pledgedParams (.staticArray .int (.standIn (unknown 1)))
      (.staticArray .int (.param ⟨1⟩)) (.free 2) =
        some (.exact, [none, some (.value (.standIn (unknown 0)) (.standIn (unknown 1)))]) := rfl
  have h' : Deduce.ty pledgedParams (.staticArray .int (.known 3))
      (.staticArray .int (.param ⟨1⟩)) (.free 2) =
        some (.exact, [none, some (.value (.standIn (unknown 0)) (.int 3))]) := rfl
  have := (hstable hknown h).symm.trans h'
  simp [Bindings.assign, Arg.assign, Ty.assign, allThrees] at this

end Templates
