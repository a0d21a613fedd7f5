import Mathlib.Data.List.Forall2
import Templates.Proofs.Matching

/-!
# Arguments of the parameters' kinds

A match has an argument of its kind for each parameter (`Semantics.matchDecl_takes`). Since only the
last parameter can be a sequence, nothing is lost when the arguments are spliced
(`Decl.Accepted.flatten_inj`).
-/

namespace Templates

/-- A match has one argument for each parameter, of the parameter's kind. -/
theorem Semantics.matchDecl_takes {σ : Type} {sem : Semantics σ} {d : Decl} {args : List Arg}
    {receiver : Option Ty} {mode : MatchMode} {s : σ} {ded : Deduction}
    (h : (sem.matchDecl d args receiver mode s).1 = .ok ded) :
    List.Forall₂ (fun p a => p.kind.takes a = true) d.params ded.args := by
  have hfills := visitParams_fills rfl (matchDecl_eq_ok h)
  have hlen := hfills.length
  rw [Bindings.ofArgs, List.length_map, Bindings.free, List.length_replicate] at hlen
  refine List.forall₂_iff_get.mpr ⟨hlen.symm, fun i hi hi' => ?_⟩
  refine hfills.kinded (.free ..) (i := ⟨i⟩) ?_ ?_
  · rw [Deduce.kind?, List.getElem?_eq_getElem hi]
    rfl
  · rw [Bindings.get?_ofArgs, List.getElem?_eq_getElem hi']
    rfl

/-! ## Spliced arguments -/

theorem Arg.flatten_cons (a : Arg) (as : List Arg) :
    flatten (a :: as) = a.leaves ++ flatten as := List.flatMap_cons

namespace ParamKind

variable {k : ParamKind} {a b : Arg}

theorem leaves_inj (hk : k.isTuple = true) (ha : k.takes a = true) (hb : k.takes b = true)
    (h : a.leaves = b.leaves) : a = b := by
  cases k with
  | tuple =>
    cases a with
    | tuple as =>
      cases b with
      | tuple bs => exact congrArg Arg.tuple h
      | _ => cases hb
    | _ => cases ha
  | _ => cases hk

theorem leaves_of_takes (hk : k.isTuple = false) (ha : k.takes a = true) : a.leaves = [a] := by
  cases a with
  | tuple =>
    cases k with
    | tuple => cases hk
    | _ => cases ha
  | _ => rfl

end ParamKind

theorem Arg.flatten_inj_of_takes {ps : List Param} {as bs : List Arg}
    (hlast : ∀ i p, ps[i]? = some p → p.isTuple = true → i + 1 = ps.length)
    (has : List.Forall₂ (fun p a => p.kind.takes a = true) ps as)
    (hbs : List.Forall₂ (fun p a => p.kind.takes a = true) ps bs)
    (h : flatten as = flatten bs) : as = bs := by
  induction has generalizing bs with
  | nil =>
    cases hbs
    rfl
  | @cons p a ps as ha has ih =>
    cases hbs with
    | @cons _ b _ bs hb hbs =>
      rw [flatten_cons, flatten_cons] at h
      cases hp : p.isTuple with
      | true =>
        obtain rfl : ps = [] := List.length_eq_zero_iff.mp (Nat.succ.inj (hlast 0 p rfl hp)).symm
        cases has
        cases hbs
        rw [ParamKind.leaves_inj hp ha hb (List.append_cancel_right h)]
      | false =>
        rw [ParamKind.leaves_of_takes hp ha, ParamKind.leaves_of_takes hp hb] at h
        obtain ⟨rfl, hrest⟩ := List.cons.inj h
        rw [ih (fun i q hq htuple => Nat.succ.inj (hlast (i + 1) q hq htuple)) hbs hrest]

/-- Arguments for the parameters of a declaration are told apart when they are spliced. -/
theorem Decl.Accepted.flatten_inj {d : Decl} (H : d.Accepted) {as bs : List Arg}
    (has : List.Forall₂ (fun p a => p.kind.takes a = true) d.params as)
    (hbs : List.Forall₂ (fun p a => p.kind.takes a = true) d.params bs)
    (h : Arg.flatten as = Arg.flatten bs) : as = bs :=
  Arg.flatten_inj_of_takes (fun _ _ hp htuple => H.tuple_last hp htuple) has hbs h

end Templates
