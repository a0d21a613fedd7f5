import Mathlib.Data.Nat.ModEq
import Mathlib.Data.Set.Function
import Templates.Proofs.Ranking
import Templates.Proofs.Ranking.Mirrors

/-!
# Stand-ins for symbols

The argument that stands for a symbol parameter is a symbol with 23 bits of the declaration and 8 of
the parameter in it. It depends on nothing else, so ranking tells the symbol parameters of an engine
apart as far as these bits do (`Engine.distinguishes`). Parameter lists may be longer: a declaration of
257 parameters is accepted whose first and last, both symbols, have one stand-in
(`not_tellsApart_paired`).
-/

namespace Templates

variable {σ : Type}

/-! ## The places of the stand-ins -/

/-- How many of the first `i` parameters take an argument. A `this` parameter takes the receiver. -/
def argsBefore (ps : List Param) (i : Nat) : Nat := (ps.take i).countP fun p => !p.isThis

namespace Semantics

variable {sem : Semantics σ} {id : DeclId} {scope : ScopeId} {n i : Nat} {p : Param}
  {ps : List Param} {s : σ}

theorem standIns_args_cons (hgo : p.dependent = false ∧ p.isTuple = false) :
    (sem.standIns id scope n (p :: ps) s).1.1 =
      if p.isThis then (sem.standIns id scope (n + 1) ps (sem.specValue scope p.kind s).2).1.1
      else p.kind.standIn ⟨id, ⟨n⟩⟩ (sem.specValue scope p.kind s).1 ::
        (sem.standIns id scope (n + 1) ps (sem.specValue scope p.kind s).2).1.1 := by
  obtain ⟨hdep, htuple⟩ := hgo
  rw [standIns_step, hdep, htuple]
  cases p.isThis <;> rfl

variable (sem id scope n s) in
/-- The stand-in of a parameter is the argument at its place, if the stand-ins do not end before. -/
theorem getElem?_standIns (hi : ps[i]? = some p) (hthis : p.isThis = false)
    (hgo : ∀ q ∈ ps.take (i + 1), q.dependent = false ∧ q.isTuple = false) :
    ∃ spec, (sem.standIns id scope n ps s).1.1[argsBefore ps i]? =
      some (p.kind.standIn ⟨id, ⟨n + i⟩⟩ spec) := by
  induction ps generalizing n i s with
  | nil => cases hi
  | cons q ps ih =>
    obtain ⟨hq, hgo⟩ := List.forall_mem_cons.mp hgo
    rw [standIns_args_cons hq]
    cases i with
    | zero =>
      cases hi
      rw [if_neg (Bool.eq_false_iff.mp hthis)]
      exact ⟨_, rfl⟩
    | succ i =>
      obtain ⟨spec, h⟩ := ih (n + 1) (sem.specValue scope q.kind s).2 hi hgo
      refine ⟨spec, ?_⟩
      rw [argsBefore, List.take_succ_cons, List.countP_cons, ← Nat.succ_add_eq_add_succ n i]
      cases q.isThis <;> exact h

end Semantics

/-! ## The symbol parameters of an engine -/

namespace Engine

variable {e : Engine} {sem : Semantics σ} {p q : Placeholder} {s t : σ} {x : SymbolId}

/-- A symbol parameter of a declaration that asks for no symbol and has a stand-in. -/
structure Stands (e : Engine) (p : Placeholder) : Prop where
  declared : p.decl.index < e.decls.size
  given : (e.decl p.decl).Given p.param
  unspecified : ∃ k, Deduce.kind? (e.decl p.decl).params p.param = some (.symbol k) ∧
    k.specSymbol = none

/-- What ranking gives to a rival for the parameter. -/
def standIn? (e : Engine) (sem : Semantics σ) (p : Placeholder) (s : σ) : Option Arg :=
  let d := e.decl p.decl
  (sem.standIns p.decl d.scope 0 d.params s).1.1[argsBefore d.params p.param.index]?

/-- Different symbol parameters have different stand-ins, also those of different declarations. -/
def TellsApart (e : Engine) (sem : Semantics σ) : Prop :=
  ∀ ⦃p q s t⦄, e.Stands p → e.Stands q → e.standIn? sem p s = e.standIn? sem q t → p = q

/-- The stand-ins have bits enough for the declarations and their parameters. -/
structure Fits (e : Engine) : Prop where
  decls : e.decls.size ≤ 0x800000
  params (d : DeclId) : (e.decl d).params.length ≤ 0x100

/-- Each pair of a declaration and one of its parameters. -/
def Occurs (e : Engine) (p : Placeholder) : Prop :=
  p.decl.index < e.decls.size ∧ p.param.index < (e.decl p.decl).params.length

theorem Stands.occurs (h : e.Stands p) : e.Occurs p := by
  obtain ⟨k, hk, -⟩ := h.unspecified
  exact ⟨h.declared, Deduce.lt_of_kind? hk⟩

theorem Stands.standIn?_eq (h : e.Stands p) :
    e.standIn? sem p s = some (.symbol (.placeholder p)) := by
  obtain ⟨k, hk, hspec⟩ := h.unspecified
  obtain ⟨x, hx, hkind⟩ := Option.map_eq_some_iff.mp hk
  have hthis : x.isThis = false := by rw [Param.isThis, hkind]; rfl
  obtain ⟨spec, hget⟩ :=
    Semantics.getElem?_standIns sem p.decl (e.decl p.decl).scope 0 s hx hthis h.given
  rw [standIn?, hget, hkind, ParamKind.standIn, hspec, Nat.zero_add]
  rfl

theorem Stands.standIn?_eq_iff (hp : e.Stands p) (hq : e.Stands q) :
    e.standIn? sem p s = e.standIn? sem q t ↔
      p.decl.index ≡ q.decl.index [MOD 0x800000] ∧ p.param.index ≡ q.param.index [MOD 0x100] := by
  rw [hp.standIn?_eq, hq.standIn?_eq, Option.some_inj, Arg.symbol.injEq]
  exact SymbolId.placeholder_eq_placeholder_iff

/-- No bit is lost of what fits. -/
theorem Fits.injOn (h : e.Fits) : Set.InjOn SymbolId.placeholder {p | e.Occurs p} := by
  rintro ⟨⟨d⟩, ⟨i⟩⟩ ⟨hd, hi⟩ ⟨⟨d'⟩, ⟨i'⟩⟩ ⟨hd', hi'⟩ heq
  obtain ⟨hdecl, hparam⟩ := SymbolId.placeholder_eq_placeholder_iff.mp heq
  have hd : d < 0x800000 := hd.trans_le h.decls
  have hd' : d' < 0x800000 := hd'.trans_le h.decls
  have hi : i < 0x100 := hi.trans_le (h.params _)
  have hi' : i' < 0x100 := hi'.trans_le (h.params _)
  rw [Nat.mod_eq_of_lt hd, Nat.mod_eq_of_lt hd'] at hdecl
  rw [Nat.mod_eq_of_lt hi, Nat.mod_eq_of_lt hi'] at hparam
  subst hdecl hparam
  rfl

/-- How ranking tells the symbol parameters of an engine apart. -/
structure Distinguishes (e : Engine) (sem : Semantics σ) : Prop where
  /-- The stand-in does not depend on what the front end has done. -/
  standIn?_eq {p : Placeholder} {s : σ} : e.Stands p →
    e.standIn? sem p s = some (.symbol (.placeholder p))
  /-- It is no symbol of the front end. -/
  standIn?_ne {p : Placeholder} {s : σ} {x : SymbolId} : e.Stands p → x.isPlaceholder = false →
    e.standIn? sem p s ≠ some (.symbol x)
  /-- Two parameters have one stand-in exactly if 23 bits of their declarations and 8 of their
  places agree. -/
  standIn?_eq_iff {p q : Placeholder} {s t : σ} : e.Stands p → e.Stands q →
    (e.standIn? sem p s = e.standIn? sem q t ↔
      p.decl.index ≡ q.decl.index [MOD 0x800000] ∧ p.param.index ≡ q.param.index [MOD 0x100])
  tellsApart : e.Fits → e.TellsApart sem
  /-- In patterns, too, where a stand-in takes the place of a template. -/
  injOn : e.Fits → Set.InjOn SymbolId.placeholder {p | e.Occurs p}

/-- **Stand-ins for symbols keep some bits of what they stand for.** They are different as far as these
bits are, and always if there are at most 2^23 declarations of at most 256 parameters each. -/
theorem distinguishes (e : Engine) (sem : Semantics σ) : e.Distinguishes sem where
  standIn?_eq := Stands.standIn?_eq
  standIn?_ne {p s x} hp hx heq := by
    rw [hp.standIn?_eq] at heq
    cases heq
    rw [SymbolId.isPlaceholder_placeholder] at hx
    cases hx
  standIn?_eq_iff := Stands.standIn?_eq_iff
  tellsApart h p q s t hp hq heq := by
    rw [hp.standIn?_eq, hq.standIn?_eq] at heq
    exact h.injOn hp.occurs hq.occurs (Arg.symbol.inj (Option.some.inj heq))
  injOn := Fits.injOn

end Engine

/-! ## More parameters than stand-ins for symbols -/

/-- A symbol, a type, 254 more types and another symbol. -/
def pairedKind : Nat → ParamKind
  | 0 | 256 => .symbol {}
  | 1 => .type { spec := some (.inst (.param ⟨0⟩) []) }
  | _ => .type {}

/-- `D(alias S, T : S!(), ..., alias R)`, where `R` is parameter 256. -/
def paired : Decl where
  name := "D"
  params := lettered pairedKind 257

theorem paired_kinds (i : Nat) :
    (pairedKind i).isTuple = false ∧ (pairedKind i).isThis = false := by
  unfold pairedKind
  split <;> exact ⟨rfl, rfl⟩

theorem paired_finalize? : paired.finalize? = .ok paired := by
  refine Decl.finalize?_lettered rfl paired_kinds fun i t ht => ?_
  unfold pairedKind at ht
  split at ht
  case h_3 =>
    rw [List.mem_singleton.mp ht]
    exact Nat.zero_le _
  all_goals cases ht

theorem paired_given (i : ParamIdx) : paired.Given i := by
  intro p hp
  obtain ⟨j, hj⟩ := List.mem_iff_getElem?.mp (List.mem_of_mem_take hp)
  obtain ⟨-, rfl⟩ := getElem?_lettered hj
  exact ⟨rfl, (paired_kinds j).1⟩

/-- An engine after its first declaration. -/
def pairedEngine : Engine := { decls := #[{ paired with }] }

theorem declare_paired : ({} : Engine).declare paired = (.ok ⟨0⟩, pairedEngine) := by
  rw [Engine.declare, paired_finalize?]
  rfl

theorem paired_stands {i : Nat} (h : pairedKind i = .symbol {}) (hi : i < 257) :
    pairedEngine.Stands ⟨⟨0⟩, ⟨i⟩⟩ := by
  have hdecl : pairedEngine.decl ⟨0⟩ = paired := rfl
  constructor
  case declared => exact Nat.zero_lt_one
  all_goals rw [hdecl]
  case given => exact paired_given _
  case unspecified =>
    refine ⟨{}, ?_, rfl⟩
    rw [Deduce.kind?, paired, lettered, List.getElem?_map, List.getElem?_range hi]
    exact congrArg some h

/-- The engine accepts 257 parameters, and two symbols among them have one stand-in. -/
theorem not_tellsApart_paired :
    ({} : Engine).declare paired = (.ok ⟨0⟩, pairedEngine) ∧ ¬pairedEngine.TellsApart counting := by
  refine ⟨declare_paired, fun h => ?_⟩
  have hfirst : pairedEngine.Stands ⟨⟨0⟩, ⟨0⟩⟩ := paired_stands rfl (by decide)
  have hlast : pairedEngine.Stands ⟨⟨0⟩, ⟨256⟩⟩ := paired_stands rfl (by decide)
  have hsame : pairedEngine.standIn? counting ⟨⟨0⟩, ⟨0⟩⟩ () =
      pairedEngine.standIn? counting ⟨⟨0⟩, ⟨256⟩⟩ () :=
    (hfirst.standIn?_eq_iff hlast).mpr ⟨rfl, rfl⟩
  cases h hfirst hlast hsame

end Templates
