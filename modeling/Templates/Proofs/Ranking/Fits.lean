import Templates.Proofs.Ranking.Arity

/-!
# Declarations that fit into others

A declaration fits into another if the core of this accepts the stand-ins that it is given
(`Semantics.Fits`). What fits into a declaration that fits into a third fits into the third
(`Semantics.Fits.trans`), if the stand-ins of the second show all of it and it drops nothing of
those of the first.
-/

namespace Templates

namespace Decl

/-- The number of stand-ins that are arguments. -/
def argCount (d : Decl) : Nat := d.front.countP fun p => !p.isThis

theorem front_core (d : Decl) : d.core.front = d.front.map Param.core := by
  unfold front core
  rw [List.takeWhile_map]
  refine congrArg (List.map Param.core) (congrArg (d.params.takeWhile ·) (funext fun p => ?_))
  have htuple : p.core.isTuple = p.isTuple := p.kind.isTuple_core
  rw [Function.comp_apply, htuple]
  rfl

theorem length_front_core (d : Decl) : d.core.front.length = d.front.length := by
  rw [front_core, List.length_map]

theorem Accepted.length_front {d : Decl} (hacc : d.Accepted) :
    d.front.length = d.argCount + d.takesReceiver.toNat := by
  have hcount {ps : List Param} (hps : ∀ p ∈ ps, p.isThis = false) :
      (ps.takeWhile fun p => !(p.dependent || p.isTuple)).countP (fun p => !p.isThis) =
        (ps.takeWhile fun p => !(p.dependent || p.isTuple)).length := by
    refine List.countP_eq_length.mpr fun p hp => ?_
    rw [hps p ((List.takeWhile_sublist _).subset hp)]
    rfl
  cases h : d.takesReceiver with
  | false => exact (hcount (takesReceiver_eq_false.mp h)).symm
  | true =>
    obtain ⟨p, q, ps, hparams, hkind, hdep, hps⟩ := hacc.receiver_first h
    have hthis : p.isThis = true := by rw [Param.isThis, hkind]; rfl
    have htuple : p.isTuple = false := by rw [Param.isTuple, hkind]; rfl
    unfold argCount front
    rw [hparams, List.takeWhile_cons_of_pos (by rw [hdep, htuple]; rfl), List.length_cons,
      List.countP_cons_of_neg (by rw [hthis]; decide), hcount hps]
    rfl

theorem isVariadic_core (d : Decl) : d.core.isVariadic = d.isVariadic := by
  unfold isVariadic variadic? core
  rw [List.getLast?_map, List.length_map]
  cases d.params.getLast? with
  | none => rfl
  | some p =>
    have htuple : p.core.isTuple = p.isTuple := p.kind.isTuple_core
    rw [Option.map_some]
    dsimp only
    rw [htuple]

theorem takesReceiver_core (d : Decl) : ∀ p ∈ d.core.params, p.isThis = false := by
  intro p hp
  obtain ⟨q, -, rfl⟩ := List.mem_map.mp hp
  exact q.kind.isThis_core

end Decl

namespace Semantics

variable {σ : Type} {sem : Semantics σ} {a b c : DeclId × Decl} {s s' : σ} {id : DeclId}
  {scope : ScopeId} {n : Nat} {qs : List Param} {args xs ys : List Arg}

/-! ## Stand-ins as arguments -/

/-- The stand-ins of a declaration, with that for `this` first. -/
def coreStandIns (sem : Semantics σ) (a : DeclId × Decl) (s : σ) : List Arg :=
  (sem.standIns a.1 a.2.scope 0 a.2.core.params s).1.1

/-- The stand-ins of the first that the second is given. The receiver is for `this` only. -/
def offered (sem : Semantics σ) (a b : DeclId × Decl) (s : σ) : List Arg :=
  if a.2.takesReceiver && !b.2.takesReceiver then (sem.coreStandIns a s).tail
  else sem.coreStandIns a s

theorem length_standIns (hqs : ∀ q ∈ qs, q.isThis = false) :
    (sem.standIns id scope n qs s).1.1.length =
      (qs.takeWhile fun p => !(p.dependent || p.isTuple)).length := by
  induction qs generalizing n s with
  | nil => rfl
  | cons q qs ih =>
    rw [standIns_cons (hqs q List.mem_cons_self), List.takeWhile_cons]
    cases q.dependent || q.isTuple with
    | true => rfl
    | false => exact congrArg (· + 1) (ih fun q hq => hqs q (List.mem_cons_of_mem _ hq))

/-- The values that are asked for are constants, so the state does not count. -/
theorem standIns_state (hqs : PlainParams sem qs) (s s' : σ) :
    (sem.standIns id scope n qs s).1 = (sem.standIns id scope n qs s').1 := by
  induction qs generalizing n s s' with
  | nil => rfl
  | cons q qs ih =>
    have hplain := hqs q List.mem_cons_self
    have hspec : (sem.specValue scope q.kind s).1 = (sem.specValue scope q.kind s').1 := by
      cases hk : q.kind with
      | type | this | symbol | tuple => rfl
      | value p =>
        cases hp : p.spec with
        | none => rw [specValue_none hp, specValue_none hp]
        | some e =>
          obtain ⟨v, hv⟩ := (hk ▸ hplain).folds e hp
          rw [specValue_folds hp hv, specValue_folds hp hv]
    rw [standIns_cons hplain.isThis, standIns_cons hplain.isThis, hspec,
      ih (fun q hq => hqs q (List.mem_cons_of_mem _ hq)) (sem.specValue scope q.kind s).2
        (sem.specValue scope q.kind s').2]

theorem coreStandIns_state (ha : a.2.core.Plain sem) (s s' : σ) :
    sem.coreStandIns a s = sem.coreStandIns a s' := congrArg Prod.fst (standIns_state ha s s')

theorem offered_state (ha : a.2.core.Plain sem) (s s' : σ) :
    sem.offered a b s = sem.offered a b s' := by
  rw [offered, offered, coreStandIns_state ha s s']

theorem length_coreStandIns : (sem.coreStandIns a s).length = a.2.front.length :=
  (length_standIns a.2.takesReceiver_core).trans a.2.length_front_core

/-- Each gets as many arguments as it has parameters for them, and the receiver. -/
theorem length_offered (ha : a.2.Accepted)
    (h : b.2.takesReceiver = true → a.2.takesReceiver = true) :
    (sem.offered a b s).length = a.2.argCount + b.2.takesReceiver.toNat := by
  unfold offered
  cases hb : b.2.takesReceiver with
  | true =>
    rw [h hb]
    have hlen := ha.length_front
    rw [h hb] at hlen
    exact length_coreStandIns.trans hlen
  | false =>
    have hlen := ha.length_front
    cases ha' : a.2.takesReceiver with
    | true =>
      rw [ha'] at hlen
      change (sem.coreStandIns a s).tail.length = a.2.argCount
      rw [List.length_tail, length_coreStandIns, hlen]
      rfl
    | false =>
      rw [ha'] at hlen
      exact length_coreStandIns.trans hlen

theorem standIns_of_not_this (h : a.2.takesReceiver = false) :
    (sem.standIns a.1 a.2.scope 0 a.2.params s).1 = (sem.coreStandIns a s, none) := by
  have hthis := Decl.takesReceiver_eq_false.mp h
  have hcore : sem.coreStandIns a s = (sem.standIns a.1 a.2.scope 0 a.2.params s).1.1 :=
    congrArg (fun r => (r s).1.1) (standIns_core hthis)
  exact Prod.ext hcore.symm (standIns_receiver hthis)

variable (sem s) in
theorem standIns_of_this (ha : a.2.Accepted) (h : a.2.takesReceiver = true) :
    ∃ t, (sem.standIns a.1 a.2.scope 0 a.2.params s).1.2 = some t ∧
      sem.coreStandIns a s = .type t :: (sem.standIns a.1 a.2.scope 0 a.2.params s).1.1 := by
  obtain ⟨p, q, ps, hparams, hkind, hdep, hps⟩ := ha.receiver_first h
  have hthis : (sem.standIns a.1 a.2.scope 0 (p :: ps) s).1 = _ := standIns_this hkind hdep hps
  have hcore : sem.coreStandIns a s =
      (sem.standIns a.1 a.2.scope 0 (p.core :: ps.map Param.core) s).1.1 := by
    rw [← List.map_cons, ← hparams]
    rfl
  have hgo : (p.core.dependent || p.core.isTuple) = false := by
    change (p.dependent || p.kind.core.isTuple) = false
    rw [hdep, hkind]
    rfl
  have hspec : sem.specValue a.2.scope p.core.kind s = (none, s) := by
    rw [Param.core, hkind]
    rfl
  rw [standIns_cons (p := p.core) p.kind.isThis_core, hgo, hspec, standIns_core hps] at hcore
  rw [← hparams] at hthis
  refine ⟨_, congrArg Prod.snd hthis, ?_⟩
  rw [hcore, hthis, Param.core, hkind]
  rfl

/-- What a declaration makes of stand-ins its core makes of those that it is given. -/
theorem matchDecl_standIns_iff {ded : Deduction} (ha : a.2.Accepted) (hb : b.2.Accepted)
    (hdefault : b.2.NeedsNoDefault a.2.argCount) :
    (sem.matchDecl b.2 (sem.standIns a.1 a.2.scope 0 a.2.params s).1.1
      (sem.standIns a.1 a.2.scope 0 a.2.params s).1.2 .rank s').1 = .ok ded ↔
    (b.2.takesReceiver = true → a.2.takesReceiver = true) ∧
      (sem.matchDecl b.2.core (sem.offered a b s) none .rank s').1 = .ok ded := by
  unfold offered
  have hlen : (sem.coreStandIns a s).length = _ := length_coreStandIns
  rw [ha.length_front] at hlen
  cases ha' : a.2.takesReceiver with
  | false =>
    rw [ha', Bool.toNat_false, Nat.add_zero] at hlen
    rw [← hlen] at hdefault
    rw [standIns_of_not_this ha']
    cases hb' : b.2.takesReceiver with
    | false =>
      exact (matchDecl_core hb hb' hdefault).trans ⟨fun h => ⟨nofun, h⟩, And.right⟩
    | true =>
      refine ⟨fun h => absurd h (matchDecl_no_receiver hb hb' hdefault), fun h => ?_⟩
      cases h.1 rfl
  | true =>
    obtain ⟨t, hrec, hcore⟩ := standIns_of_this sem s ha ha'
    rw [ha', hcore] at hlen
    rw [← Nat.succ.inj hlen] at hdefault
    rw [hrec, hcore]
    cases hb' : b.2.takesReceiver with
    | false =>
      exact (matchDecl_core hb hb' hdefault).trans ⟨fun h => ⟨nofun, h⟩, And.right⟩
    | true =>
      exact (matchDecl_core_receiver hb hb' hdefault).trans ⟨fun h => ⟨fun _ => rfl, h⟩, And.right⟩

/-! ## Fitting -/

/-- The declaration takes the arguments. -/
def Accepts (sem : Semantics σ) (d : Decl) (args : List Arg) (s : σ) : Prop :=
  ∃ ded, (sem.matchDecl d args none .rank s).1 = .ok ded ∧ .noMatch < ded.level

/-- The second declaration accepts the stand-ins of the first. -/
structure Fits (sem : Semantics σ) (a b : DeclId × Decl) (s s' : σ) : Prop where
  receiver : b.2.takesReceiver = true → a.2.takesReceiver = true
  variadic : a.2.isOpenVariadic = true → b.2.isVariadic = true
  accepts : sem.Accepts b.2.core (sem.offered a b s) s'

theorem leastAsSpecialized_pos_iff_fits (ha : a.2.Accepted) (hb : b.2.Accepted)
    (hdefault : b.2.NeedsNoDefault a.2.argCount) :
    .noMatch < (sem.leastAsSpecialized a b s).1 ↔
      sem.Fits a b s (sem.standIns a.1 a.2.scope 0 a.2.params s).2 := by
  rw [leastAsSpecialized_pos_iff]
  simp only [matchDecl_standIns_iff ha hb hdefault]
  constructor
  · rintro ⟨⟨ded, ⟨hrec, hded⟩, hl⟩, hvar⟩
    exact ⟨hrec, hvar, ded, hded, hl⟩
  · rintro ⟨hrec, hvar, ded, hded, hl⟩
    exact ⟨⟨ded, ⟨hrec, hded⟩, hl⟩, hvar⟩

theorem compare_eq_moreSpecific_iff : (sem.compare a b s).1 = .moreSpecific ↔
    .noMatch < (sem.leastAsSpecialized a b s).1 ∧
      ¬.noMatch < (sem.leastAsSpecialized b a (sem.leastAsSpecialized a b s).2).1 := by
  rw [compare, bind_run, bind_run]
  change Order.ofFits _ _ = _ ↔ _
  by_cases h₁ : .noMatch < (sem.leastAsSpecialized a b s).1 <;>
    by_cases h₂ : .noMatch < (sem.leastAsSpecialized b a (sem.leastAsSpecialized a b s).2).1 <;>
      simp [h₁, h₂, Order.ofFits]

/-- The second declaration drops nothing of the stand-ins of the first that it has parameters for.
-/
def KeepsStandIns (sem : Semantics σ) (a b : DeclId × Decl) : Prop :=
  ∀ ⦃s s' ded⦄,
    (sem.matchDecl b.2.core ((sem.offered a b s).take b.2.front.length) none .rank s').1 = .ok ded →
    b.2.core.Keeps sem ded.args ((sem.offered a b s).take b.2.front.length)

theorem Accepts.front_length_le (hb : b.2.Accepted) (hplain : b.2.core.Plain sem)
    (h : sem.Accepts b.2.core args s) : b.2.front.length ≤ args.length :=
  let ⟨_, hded, _⟩ := h
  b.2.length_front_core ▸ Semantics.front_length_le hb.core hplain hded

theorem independent_core {d : Decl} (h : ∀ p ∈ d.params, p.dependent = false) :
    ∀ p ∈ d.core.params, p.dependent = false := by
  intro p hp
  obtain ⟨q, hq, rfl⟩ := List.mem_map.mp hp
  exact h q hq

/-- A declaration takes more arguments than it has parameters for by a sequence. -/
theorem Accepts.isVariadic (hb : b.2.Accepted) (hplain : b.2.core.Plain sem)
    (hdep : ∀ p ∈ b.2.params, p.dependent = false) (hlen : args.length ≠ b.2.front.length)
    (h : sem.Accepts b.2.core args s) : b.2.isVariadic = true := by
  have hle := h.front_length_le hb hplain
  obtain ⟨ded, hded, -⟩ := h
  rw [← b.2.isVariadic_core]
  refine Bool.not_eq_false _ |>.mp fun hvar => hlen (Nat.le_antisymm ?_ hle)
  exact b.2.length_front_core ▸ length_le_front hb.core hplain hvar (independent_core hdep) hded

variable (ys) in
/-- A sequence takes any number of arguments. -/
theorem Accepts.append_iff (hb : b.2.Accepted) (hplain : b.2.core.Plain sem)
    (hvar : b.2.isVariadic = true) (hdep : ∀ p ∈ b.2.params, p.dependent = false)
    (hlen : b.2.front.length ≤ xs.length) :
    sem.Accepts b.2.core (xs ++ ys) s ↔ sem.Accepts b.2.core xs s := by
  have happend (l : Level) :
      (∃ ded, (sem.matchDecl b.2.core (xs ++ ys) none .rank s).1 = .ok ded ∧ ded.level = l) ↔
        ∃ ded, (sem.matchDecl b.2.core xs none .rank s).1 = .ok ded ∧ ded.level = l :=
    matchDecl_append hb.core hplain (b.2.isVariadic_core.trans hvar) (independent_core hdep)
      (b.2.length_front_core.symm ▸ hlen)
  constructor
  · rintro ⟨ded, hded, hl⟩
    obtain ⟨ded', hded', hl'⟩ := (happend _).mp ⟨ded, hded, rfl⟩
    exact ⟨ded', hded', hl' ▸ hl⟩
  · rintro ⟨ded, hded, hl⟩
    obtain ⟨ded', hded', hl'⟩ := (happend _).mpr ⟨ded, hded, rfl⟩
    exact ⟨ded', hded', hl' ▸ hl⟩

/-- Where the second declaration has a sequence it takes the first of the arguments, too. -/
theorem Accepts.take (hb : b.2.Accepted) (hplain : b.2.core.Plain sem)
    (hcount : args.length = b.2.front.length ∨ ∀ p ∈ b.2.params, p.dependent = false)
    (h : sem.Accepts b.2.core args s) : sem.Accepts b.2.core (args.take b.2.front.length) s := by
  by_cases hlen : args.length = b.2.front.length
  · rwa [List.take_of_length_le hlen.le]
  · have hdep := hcount.resolve_left hlen
    have hvar := h.isVariadic hb hplain hdep hlen
    have hle := h.front_length_le hb hplain
    rw [← List.take_append_drop b.2.front.length args] at h
    exact (append_iff _ hb hplain hvar hdep (List.length_take_of_le hle).ge).mp h

/-- What accepts the stand-ins of a declaration accepts the arguments that this takes. -/
theorem Accepts.fill (hsem : sem.Steady) (hb : b.2.core.Plain sem) (hc : c.2.core.Plain sem)
    (hshown : b.2.core.Shown sem) (hlen : args.length = b.2.front.length) {ded : Deduction}
    (hded : (sem.matchDecl b.2.core args none .rank s).1 = .ok ded)
    (hkeeps : b.2.core.Keeps sem ded.args args) {s₁ s₂ : σ}
    (h : sem.Accepts c.2.core (sem.offered b c s₁) s₂) (s' : σ) :
    sem.Accepts c.2.core (if b.2.takesReceiver && !c.2.takesReceiver then args.tail else args)
      s' := by
  obtain ⟨found, hfound, hl⟩ := h
  have hfew : ded.args.length ≤ 256 := (matchDecl_takes hded).length_eq ▸ hshown.few
  obtain ⟨hfill, hready⟩ := standIns_fill b.1 s₁ b.2.scope hsem hb hshown hfew rfl (.free ..)
    (fun j k x hk hx => hkeeps (Nat.zero_add j ▸ hk) hx)
    (hlen.trans (length_coreStandIns (s := s₁)).symm) (matchDecl_eq_ok hded) (.refl _)
  change Arg.fillList _ (sem.coreStandIns b s₁) = args at hfill
  change ∀ a ∈ sem.coreStandIns b s₁, _ at hready
  have hoffered : (∀ a ∈ sem.offered b c s₁, a.Ready (.ofArgs b.1 ded.args)) ∧
      Arg.fillList (.ofArgs b.1 ded.args) (sem.offered b c s₁) =
        if b.2.takesReceiver && !c.2.takesReceiver then args.tail else args := by
    unfold offered
    split
    · refine ⟨fun a ha => hready a (List.mem_of_mem_tail ha), ?_⟩
      rw [Arg.fillList_eq_map, List.map_tail, ← Arg.fillList_eq_map, hfill]
    · exact ⟨hready, hfill⟩
  have hmatch := matchDecl_fill s' hsem hc hoffered.1 hfound
  rw [hoffered.2] at hmatch
  exact ⟨_, hmatch, hl⟩

/-- What is left for the third of the stand-ins of the first. -/
theorem offered_of_receivers (hab : b.2.takesReceiver = true → a.2.takesReceiver = true)
    (hbc : c.2.takesReceiver = true → b.2.takesReceiver = true) :
    sem.offered a c s = if b.2.takesReceiver && !c.2.takesReceiver then (sem.offered a b s).tail
      else sem.offered a b s := by
  unfold offered
  cases hc : c.2.takesReceiver with
  | true => simp [hab (hbc hc), hbc hc]
  | false =>
    cases hb : b.2.takesReceiver with
    | true => simp [hab hb]
    | false => simp

/-- **Fitting is transitive.** -/
theorem Fits.trans (hsem : sem.Steady) (hacc : ∀ x ∈ [a, b, c], x.2.Accepted)
    (hplain : ∀ x ∈ [a, b, c], x.2.core.Plain sem) (hshown : b.2.core.Shown sem)
    (hkeeps : sem.KeepsStandIns a b)
    (hopen : b.2.isVariadic = true → b.2.isOpenVariadic = true)
    (harity : a.2.argCount = b.2.argCount ∨
      ∀ p ∈ b.2.params ++ c.2.params, p.dependent = false)
    {s₁ s₂ s₃ s₄ : σ} (hab : sem.Fits a b s₁ s₂) (hbc : sem.Fits b c s₃ s₄) (s s' : σ) :
    sem.Fits a c s s' := by
  obtain ⟨ha, hb, hc⟩ : a.2.Accepted ∧ b.2.Accepted ∧ c.2.Accepted := by simpa using hacc
  obtain ⟨hpa, hpb, hpc⟩ : a.2.core.Plain sem ∧ b.2.core.Plain sem ∧ c.2.core.Plain sem := by
    simpa using hplain
  refine ⟨fun h => hab.receiver (hbc.receiver h), fun h => hbc.variadic (hopen (hab.variadic h)),
    ?_⟩
  have hlen : (sem.offered a b s₁).length = b.2.front.length ↔ a.2.argCount = b.2.argCount := by
    rw [length_offered ha hab.receiver, hb.length_front]
    exact Nat.add_right_cancel_iff
  have hle := hab.accepts.front_length_le hb hpb
  obtain ⟨ded, hded, -⟩ := hab.accepts.take hb hpb (harity.imp hlen.mpr fun h p hp =>
    h p (List.mem_append_left _ hp))
  have hfill := hbc.accepts.fill hsem hpb hpc hshown (List.length_take_of_le hle) hded
    (hkeeps hded) s'
  rw [offered_state hpa s s₁, offered_of_receivers hab.receiver hbc.receiver]
  by_cases heq : (sem.offered a b s₁).length = b.2.front.length
  · rwa [List.take_of_length_le heq.le] at hfill
  · -- The arguments beyond the stand-ins of the second go to the sequences.
    have hdep := harity.resolve_left fun h => heq (hlen.mpr h)
    have hvarb := hab.accepts.isVariadic hb hpb (fun p hp => hdep p (List.mem_append_left _ hp)) heq
    have hvarc := hbc.variadic (hopen hvarb)
    have happend := (Accepts.append_iff ((sem.offered a b s₁).drop b.2.front.length) hc hpc
      hvarc (fun p hp => hdep p (List.mem_append_right _ hp))
      (hfill.front_length_le hc hpc)).mpr hfill
    split
    · next htail =>
      have hne : (sem.offered a b s₁).take b.2.front.length ≠ [] := by
        rw [← List.length_pos_iff, List.length_take_of_le hle, hb.length_front,
          (Bool.and_eq_true_iff.mp htail).1]
        exact Nat.succ_pos _
      rwa [if_pos htail, ← List.tail_append_of_ne_nil hne, List.take_append_drop] at happend
    · next htail => rwa [if_neg htail, List.take_append_drop] at happend

end Semantics

end Templates
