import Templates.Proofs.Engine.Effects

/-!
# Gags and marks of speculation

An instance that is made inside a gag carries a mark, and loses it when a request outside every gag is
answered with it. `Engine.Marks` says this of two engines between which no gag was opened or closed;
every operation of the engine but the commands that open and close gags has the property. From it
follows what the marks say as long as a call goes on (`Engine.MadeAt`).
-/

namespace Templates.Engine

/-- The mark of speculation of an instance. -/
def gagged? (e : Engine) (i : InstanceId) : Option Bool := (e.inst? i).map (·.gagged)

/-- No gag was opened or closed. An instance was made with a mark exactly if a gag was open, and lost
its mark only if none was. -/
structure Marks (e e' : Engine) : Prop where
  depth : e'.queue.gagDepth = e.queue.gagDepth
  kept {i : InstanceId} {b : Bool} : e.gagged? i = some b →
    e'.gagged? i = some b ∨ e.isGagged = false ∧ e'.gagged? i = some false
  fresh {i : InstanceId} {b : Bool} :
    e.gagged? i = none → e'.gagged? i = some b → b = e.isGagged

variable {e e' e'' : Engine} {i j : InstanceId}

theorem isGagged_iff : e.isGagged = true ↔ 0 < e.queue.gagDepth := by
  simp [isGagged, DiagnosticQueue.isGagged]

theorem isGagged_eq_false_iff : e.isGagged = false ↔ e.queue.gagDepth = 0 := by
  simp [isGagged, DiagnosticQueue.isGagged]

theorem gagged?_congr (h : e'.insts = e.insts) (i : InstanceId) : e'.gagged? i = e.gagged? i := by
  unfold gagged? inst?
  rw [h]

theorem gagged?_modifyInst (e : Engine) (i j : InstanceId) (f : Instance → Instance) :
    (e.modifyInst i f).gagged? j =
      if i = j then (e.inst? j).map fun x => (f x).gagged else e.gagged? j := by
  unfold gagged?
  rw [inst?_modifyInst]
  split
  · rw [Option.map_map]
    rfl
  · rfl

namespace Marks

theorem isGagged (h : e.Marks e') : e'.isGagged = e.isGagged := by
  simp only [Engine.isGagged, DiagnosticQueue.isGagged, h.depth]

theorem of_gagged? (hd : e'.queue.gagDepth = e.queue.gagDepth)
    (hg : ∀ i, e'.gagged? i = e.gagged? i) : e.Marks e' where
  depth := hd
  kept {i _} h := .inl ((hg i).trans h)
  fresh {i _} h h' := by
    rw [hg, h] at h'
    cases h'

@[refl] theorem refl (e : Engine) : e.Marks e := .of_gagged? rfl fun _ => rfl

@[trans] theorem trans (h : e.Marks e') (h' : e'.Marks e'') : e.Marks e'' where
  depth := h'.depth.trans h.depth
  kept {i b} hb := by
    obtain hb | ⟨hn, hb⟩ := h.kept hb
    · exact h.isGagged ▸ h'.kept hb
    · exact .inr ⟨hn, (h'.kept hb).elim id And.right⟩
  fresh {i b} hn hb := by
    cases hm : e'.gagged? i with
    | none => exact (h'.fresh hm hb).trans h.isGagged
    | some b' =>
      have hb' := h.fresh hn hm
      obtain hk | ⟨hgag, hk⟩ := h'.kept hm
      · rw [hk] at hb
        exact (Option.some.inj hb).symm.trans hb'
      · rw [hk] at hb
        exact (Option.some.inj hb).symm.trans (hgag.symm.trans h.isGagged)

theorem of_insts (hd : e'.queue.gagDepth = e.queue.gagDepth) (hi : e'.insts = e.insts) :
    e.Marks e' := .of_gagged? hd (gagged?_congr hi)

theorem modifyInst {f : Instance → Instance} (hf : ∀ x, (f x).gagged = x.gagged) :
    e.Marks (e.modifyInst i f) := by
  refine .of_gagged? rfl fun j => ?_
  rw [gagged?_modifyInst]
  split
  · simp only [hf, gagged?]
  · rfl

end Marks

/-! ## What the engine does -/

section

variable {names : SymbolId → String} {r : Request} {c : Chain} {p : Plan}

theorem reject_marks (err : TemplateError) : e.Marks (e.reject names err c).2 :=
  .of_insts (DiagnosticQueue.gagDepth_add ..) rfl

theorem defer_marks (i t : InstanceId) : e.Marks (e.defer i t) := by
  obtain h | h := e.defer_cases i t <;> rw [h]
  refine .trans (.modifyInst ?_) (.modifyInst ?_) <;> exact fun _ => rfl

theorem touch_marks (i : InstanceId) (r : Request) : e.Marks (e.touch i r) := by
  obtain ⟨-, h⟩ | ⟨hg, h⟩ := e.touch_cases i r <;> rw [h]
  refine ⟨rfl, fun {j b} hb => ?_, fun {j b} hn hb => ?_⟩
  · rw [gagged?_modifyInst]
    split
    · obtain ⟨x, hx, -⟩ := Option.map_eq_some_iff.mp hb
      exact .inr ⟨hg, by rw [hx]; rfl⟩
    · exact .inl hb
  · have hnone : e.inst? j = none := Option.map_eq_none_iff.mp hn
    rw [gagged?_modifyInst, hn, hnone] at hb
    simp at hb

theorem answer?_marks {a : Except TemplateError InstanceId}
    (h : e.answer? names r c p = some (a, e')) : e.Marks e' := by
  have hhit : e.Marks e.countHit := .of_insts rfl rfl
  cases finds_of_answer? h with
  | recursive | tooDeep => exact reject_marks _
  | reference => exact .refl e
  | defer => exact defer_marks ..
  | failed => exact hhit
  | busy => exact hhit.trans (reject_marks _)
  | cached => exact hhit.trans (touch_marks ..)

theorem gagged?_create (j : InstanceId) : (e.create r c p).2.gagged? j =
    if j.index = e.insts.size then some e.isGagged else e.gagged? j := by
  unfold gagged? create inst?
  dsimp only [modifyDecl]
  rw [Array.getElem?_push]
  split <;> rfl

theorem gagged?_eq_none_iff : e.gagged? i = none ↔ e.insts.size ≤ i.index := by
  simp [gagged?, inst?]

theorem create_marks : e.Marks (e.create r c p).2 where
  depth := rfl
  kept {i b} hb := by
    rw [gagged?_create, if_neg]
    · exact .inl hb
    · intro h
      rw [gagged?_eq_none_iff.mpr h.ge] at hb
      cases hb
  fresh {i b} hn hb := by
    rw [gagged?_create, hn] at hb
    split at hb
    · exact (Option.some.inj hb).symm
    · cases hb

theorem complete_marks (i : InstanceId) (members : MemberTable) : e.Marks (e.complete i members) :=
  .modifyInst fun _ => rfl

theorem Marks.takeDeferred (h : e.Marks e') (i : InstanceId) : e.Marks (e'.takeDeferred i).2 :=
  h.trans (.modifyInst fun _ => rfl)

theorem release_marks (i : InstanceId) : e.Marks (e.release i).2 := .modifyInst fun _ => rfl

theorem evict_queue (e : Engine) (i : InstanceId) : (e.evict i).queue = e.queue := by
  obtain ⟨_, _, h⟩ := e.evict_frame i
  rw [h]

theorem fail_marks (i : InstanceId) (reason : String) (span : Span) :
    e.Marks (e.fail names i reason span c).2 := by
  rw [fail_eq]
  refine Marks.trans ?_ (reject_marks _)
  have herr : e.Marks (e.errored i) := .modifyInst fun _ => rfl
  obtain hf | hf := e.failed_cases i <;> rw [hf]
  · exact herr
  · exact herr.trans (.of_insts (congrArg _ (evict_queue ..)) (insts_evict ..))

theorem settle_marks (i : InstanceId) (result : Except Failure Unit) :
    e.Marks (e.settle names i result) := by
  cases result with
  | ok => exact .modifyInst fun _ => rfl
  | error f => exact fail_marks ..

theorem declare_insts (d : Decl) : (e.declare d).2.insts = e.insts := by
  obtain ⟨_, _, h⟩ := e.declare_frame d
  rw [h]

theorem declare_gagDepth (d : Decl) : (e.declare d).2.queue.gagDepth = e.queue.gagDepth := by
  obtain ⟨_, -, h⟩ | ⟨_, -, h⟩ := e.declare_cases d <;> rw [h]
  exact DiagnosticQueue.gagDepth_add ..

/-- An overload is declared, and links are set. -/
theorem overloadInsert_eq (e : Engine) (d : DeclId) (d' : Decl) :
    (e.overloadInsert d d').1 = (e.declare d').1 ∧
      (e.overloadInsert d d').2.insts = (e.declare d').2.insts ∧
        (e.overloadInsert d d').2.queue = (e.declare d').2.queue := by
  obtain ⟨_, h⟩ := e.overloadInsert_frame d d'
  rw [h]
  exact ⟨rfl, rfl, rfl⟩

theorem addRoot_eq (m : ModuleId) :
    (e.addRoot m).insts = e.insts ∧ (e.addRoot m).queue = e.queue := by
  obtain ⟨-, h⟩ | h := e.addRoot_cases m <;> rw [h] <;> exact ⟨rfl, rfl⟩

theorem claimCodegen_queue (i : InstanceId) (m : ModuleId) :
    (e.claimCodegen i m).2.queue = e.queue := by
  obtain ⟨_, h⟩ := e.claimCodegen_frame i m
  rw [h]

theorem claimCodegen_gagged? (i : InstanceId) (m : ModuleId) (j : InstanceId) :
    (e.claimCodegen i m).2.gagged? j = e.gagged? j := by
  obtain h | h := e.claimCodegen_cases i m <;> rw [h]
  rw [gagged?_modifyInst]
  split <;> rfl

theorem recordImport_gagged? (i : InstanceId) (m : ModuleId) (j : InstanceId) :
    (e.recordImport i m).gagged? j = e.gagged? j := by
  unfold recordImport
  rw [gagged?_modifyInst]
  split
  · unfold gagged?
    congr 1
    funext x
    unfold Instance.addImport
    split <;> rfl
  · rfl

end

end Templates.Engine

namespace Templates

/-- The number of gags that are open after a command if `k` were open before; none if none is left
to close. -/
def Command.gagsAfter (k : Nat) : Command → Option Nat
  | .pushGag => some (k + 1)
  | .popGag _ => match k with
    | 0 => none
    | k + 1 => some k
  | _ => some k

namespace Command

variable {e : Engine} {k k' : Nat}

/-- A command leaves the marks alone. -/
theorem gagged?_run (c : Command) (i : InstanceId) : (c.run e).2.gagged? i = e.gagged? i := by
  cases c with
  | declare d => exact Engine.gagged?_congr (Engine.declare_insts d) i
  | overload d d' =>
    exact Engine.gagged?_congr
      ((Engine.overloadInsert_eq e d d').2.1.trans (Engine.declare_insts d')) i
  | addRoot m => exact Engine.gagged?_congr (Engine.addRoot_eq m).1 i
  | claim j m => exact Engine.claimCodegen_gagged? j m i
  | recordImport j m => exact Engine.recordImport_gagged? j m i
  | addDiagnostic | pushGag | popGag | flush => rfl

/-- A command opens or closes at most one gag. -/
theorem gagDepth_run {d : Nat} (c : Command) (hd : e.queue.gagDepth = d + k)
    (hk : c.gagsAfter k = some k') : (c.run e).2.queue.gagDepth = d + k' := by
  cases c with
  | pushGag =>
    cases hk
    change e.queue.gagDepth + 1 = _
    omega
  | popGag m =>
    cases k with
    | zero => cases hk
    | succ k =>
      cases hk
      change e.queue.gagDepth - 1 = _
      omega
  | declare d' =>
    cases hk
    exact (Engine.declare_gagDepth d').trans hd
  | overload d' d'' =>
    cases hk
    have h := congrArg (·.gagDepth) (Engine.overloadInsert_eq e d' d'').2.2
    exact (h.trans (Engine.declare_gagDepth d'')).trans hd
  | addRoot m =>
    cases hk
    exact (congrArg _ (Engine.addRoot_eq m).2).trans hd
  | claim j m =>
    cases hk
    exact (congrArg _ (Engine.claimCodegen_queue j m)).trans hd
  | addDiagnostic d' =>
    cases hk
    exact (DiagnosticQueue.gagDepth_add ..).trans hd
  | recordImport | flush =>
    cases hk
    exact hd

end Command

namespace Engine

variable {e e' : Engine} {i : InstanceId} {d : Nat}

/-- What the marks say while a call goes on that made `i` at gag depth `d`: outside every gag `i` has
none, and inside a gag everything made since then has one. -/
structure MadeAt (e : Engine) (d : Nat) (i : InstanceId) : Prop where
  made : i.index < e.insts.size
  plain : d = 0 → e.gagged? i = some false
  speculative {j : InstanceId} {b : Bool} :
    0 < d → i.index ≤ j.index → e.gagged? j = some b → b = true

namespace MadeAt

theorem gagged? (H : e.MadeAt d i) : e.gagged? i = some (decide (0 < d)) := by
  obtain rfl | hd := Nat.eq_zero_or_pos d
  · exact H.plain rfl
  · rw [decide_eq_true hd]
    cases hb : e.gagged? i with
    | none => exact absurd H.made (Nat.not_lt.mpr (gagged?_eq_none_iff.mp hb))
    | some b => rw [H.speculative hd (Nat.le_refl _) hb]

theorem of_gagged? (H : e.MadeAt d i) (hg : ∀ j, e'.gagged? j = e.gagged? j) : e'.MadeAt d i where
  made := by
    by_contra h
    have := gagged?_eq_none_iff.mp ((hg i).symm.trans (gagged?_eq_none_iff.mpr (Nat.not_lt.mp h)))
    exact absurd H.made (Nat.not_lt.mpr this)
  plain h := (hg i).trans (H.plain h)
  speculative {j _} hd hj hb := H.speculative hd hj ((hg j).symm.trans hb)

/-- As long as the call goes on the gags stay open in which it was made. -/
theorem marks (H : e.MadeAt d i) (h : e.Marks e') (hd : d ≤ e.queue.gagDepth) : e'.MadeAt d i where
  made := by
    by_contra hn
    obtain hk | ⟨-, hk⟩ := h.kept H.gagged? <;>
      rw [gagged?_eq_none_iff.mpr (Nat.not_lt.mp hn)] at hk <;> cases hk
  plain hz := (h.kept (H.plain hz)).elim id And.right
  speculative {j b} hpos hj hb := by
    have hgag : e.isGagged = true := isGagged_iff.mpr (by omega)
    cases hm : e.gagged? j with
    | none => exact (h.fresh hm hb).trans hgag
    | some b' =>
      obtain hk | ⟨hn, -⟩ := h.kept hm
      · rw [hk] at hb
        exact (Option.some.inj hb).symm.trans (H.speculative hpos hj hm)
      · rw [hgag] at hn
        cases hn

theorem create {r : Request} {c : Chain} {p : Plan} :
    (e.create r c p).2.MadeAt e.queue.gagDepth (e.create r c p).1 where
  made := by
    rw [insts_create]
    exact Nat.lt_succ_self _
  plain h := by
    have hi : (e.create r c p).1.index = e.insts.size := rfl
    rw [gagged?_create, if_pos hi, isGagged_eq_false_iff.mpr h]
  speculative {j b} hd hj hb := by
    rw [gagged?_create] at hb
    split at hb
    · exact (Option.some.inj hb).symm.trans (isGagged_iff.mpr hd)
    · rw [gagged?_eq_none_iff.mpr hj] at hb
      cases hb

end MadeAt

end Engine

end Templates
