import Templates.Proofs.Ownership
import Templates.Proofs.Parking
import Templates.Proofs.Repeating.Answers
import Templates.Proofs.Splicing

/-!
# Members for those who need them

A request that needs the members of an instance is never answered with one that is still being
elaborated: on the chain or off it, that is a recursive expansion. So the instance that it is answered
with has its members, though it may be suspended (`Service.Furnishes.furnished`). At the top it is
complete and waits for nothing if only chains that were handed on are in use
(`Service.furnishes`). With a made-up chain an instance can be made to wait for one that has ended long
ago, and then it waits for ever (`not_furnishesAtTop_tethering`).
-/

namespace Templates

variable {σ α : Type}

namespace Engine

variable {e e' : Engine} (names : SymbolId → String) {q : Request} (c : Chain) {p : Plan}
  {i : InstanceId} {x : Instance}

/-- Whoever needs the members of an instance that is being elaborated is told so, whether it stands on
the chain or not. -/
theorem CachesOnce.answer?_of_elaborating (H : e.CachesOnce) (hneed : q.need = .members)
    (hx : e.inst? i = some x) (hkey : x.key = p.key) (hi : e.Caches i)
    (hs : x.state = .elaborating) : ∃ a e', e.answer? names q c p = some (a, e') ∧
      ∃ name, a = .error (.recursiveExpansion name q.span) := by
  cases hc : c.findAttempt? p.decl p.deduction.args p.enclosing with
  | some attempt => exact ⟨_, _, (Finds.recursive hc hneed).answer?_eq, _, rfl⟩
  | none =>
    have hstate : (e.inst? i).map Instance.state = some .elaborating := by
      rw [hx, Option.map_some, hs]
    have hl := H.lookup_eq_some_of_key hx hkey hi
    exact ⟨_, _, (Finds.busy hc hl hstate hneed).answer?_eq, _, rfl⟩

variable {names c}

/-- Without a new instance, whoever needs members is answered with one that was elaborated. -/
theorem progress?_of_answer? (hneed : q.need = .members)
    (h : e.answer? names q c p = some (.ok i, e')) :
    ∃ st t, e.progress? i = some (st, t) ∧ (st = .suspended ∨ st = .complete) := by
  cases finds_of_answer? h with
  | reference _ hq | defer _ hq => cases hneed.symm.trans hq
  | cached _ hl hfailed hbusy =>
    obtain ⟨x, hx⟩ := inst?_eq_some_iff.mpr (lt_of_lookup hl)
    have hbusy := hbusy hneed
    rw [hx, Option.map_some, ne_eq, Option.some.injEq] at hfailed hbusy
    refine ⟨x.state, x.members, progress?_of_inst? hx, ?_⟩
    cases hs : x.state with
    | elaborating => exact absurd hs hbusy
    | errored => exact absurd hs hfailed
    | suspended => exact .inl rfl
    | complete => exact .inr rfl

end Engine

namespace Service

/-- A request for members that is made at the top with the empty chain is answered with complete
instances only, which wait for nothing. -/
def FurnishesAtTop (svc : Service σ) (m₀ : Machine σ α) : Prop :=
  ∀ ⦃k l q j⦄, (svc.after k m₀).AsksAtTop q → svc.Answered m₀ k l q (.ok j) → q.need = .members →
    ∃ x, (svc.after (l + 1) m₀).engine.inst? j = some x ∧ x.state = .complete ∧ x.waitingOn = 0

/-- What is known in a run from `m₀` of requests that need members. -/
structure Furnishes (svc : Service σ) (m₀ : Machine σ α) : Prop where
  /-- The instance that one is answered with has its members. -/
  furnished {k l : Nat} {role : Role} {c : Chain} {q : Request} {j : InstanceId} :
    svc.Gets m₀ k l role c q j → q.need = .members →
    ∃ x, (svc.after (l + 1) m₀).engine.inst? j = some x ∧
      (x.state = .complete ∨ x.state = .suspended) ∧ x.members.isSome
  /-- At the top it is complete if only chains that were handed on are in use. -/
  atTop : svc.HandsOn → m₀.Handed → svc.FurnishesAtTop m₀
  /-- One that is being elaborated is refused in the step in which the call is carried out, whatever
  the chain. -/
  recursive {n : Nat} {call : Call} {p : Plan} {i : InstanceId} {x : Instance} :
    svc.Planning (svc.after n m₀) call p → call.request.need = .members →
    (svc.after n m₀).engine.inst? i = some x → x.key = p.key → x.state = .elaborating →
    ∃ name, svc.answers (svc.after n m₀) =
      some (.error (.recursiveExpansion name call.request.span))

variable {svc : Service σ} {config : EngineConfig} {s : σ} {prog : Program σ α} {k l n : Nat}
  {role : Role} {c : Chain} {q : Request} {j : InstanceId}

/-- An instance that is got with its members is complete or waits. -/
theorem Gets.progress? (h : svc.Gets (.boot config s prog) k l role c q j)
    (hneed : q.need = .members) :
    ∃ st t, (svc.after (l + 1) (.boot config s prog)).engine.progress? j = some (st, t) ∧
      (st = .suspended ∨ st = .complete) := by
  obtain ⟨r, resolved, w, ws, hplan, -, -, -, hle, hin, hw, ha⟩ := h.opened
  rw [after_succ, progress?_of_answers ha]
  obtain ⟨pl, s', -, ⟨rfl, e, he⟩ | ⟨-, -, -, hwithin, -⟩⟩ :=
    exists_plan_of_answers hplan hle hin hw ha
  · rw [hplan]
    exact Engine.progress?_of_answer? hneed he
  · obtain ⟨-, ⟨⟨t, ht⟩, -, -⟩ | ⟨t, ht⟩⟩ := delivered_of_within hwithin hw ha
    · exact ⟨_, t, ht, .inr rfl⟩
    · exact ⟨_, t, ht, .inl rfl⟩

/-- **Members for those who need them.** -/
theorem furnishes : svc.Furnishes (.boot config s prog) := by
  have hmembers {k l : Nat} {role : Role} {c : Chain} {q : Request} {j : InstanceId}
      (h : svc.Gets (.boot config s prog) k l role c q j) (hneed : q.need = .members) :
      ∃ x, (svc.after (l + 1) (.boot config s prog)).engine.inst? j = some x ∧
        (x.state = .complete ∨ x.state = .suspended) ∧ x.members.isSome := by
    obtain ⟨st, t, hprogress, hst⟩ := h.progress? hneed
    have ht := (furnished_after svc (l + 1)).members hprogress hst
    obtain ⟨x, hx, rfl, rfl⟩ := Engine.progress?_eq_some_iff.mp hprogress
    exact ⟨x, hx, hst.symm, ht⟩
  constructor
  case furnished => exact hmembers
  case atTop =>
    intro hsvc hm k l q j hk ha hneed
    obtain ⟨hempty, next, hcontrol⟩ := hk
    obtain ⟨x, hx, hst, -⟩ := hmembers ⟨⟨next, hcontrol⟩, ha⟩ hneed
    obtain ⟨role, c, next', hc, -, -, hw, hans⟩ := ha
    cases hcontrol.symm.trans hc
    rw [hempty] at hw
    have htop := (atTop_of_answers hw hans).1
    rw [← after_succ] at htop
    have H : (svc.after (l + 1) (.boot config s prog)).activity.Sound :=
      sound_after hsvc (hm.program rfl) (l + 1)
    obtain ⟨hidle, hwaiting, -⟩ := H.idle htop.work_eq hx
    refine ⟨x, hx, hst.resolve_right fun hs => ?_, hwaiting⟩
    rw [hs] at hidle
    obtain h | h := hidle <;> cases h
  case recursive =>
    intro n call p i x hplanning hneed hx hkey hs
    have H : (svc.after n (.boot config s prog)).engine.CachesOnce := cachesOnce_after svc n
    have hprogress : (svc.after n (.boot config s prog)).engine.progress? i =
        some (.elaborating, x.members) := hs ▸ Engine.progress?_of_inst? hx
    have hcached := caches_of_progress hprogress (.inl rfl)
    obtain ⟨a, e, s', ⟨name, rfl⟩, ha, -⟩ := hplanning.answered fun names =>
      H.answer?_of_elaborating names call.chain hneed hx hkey hcached hs
    exact ⟨name, ha⟩

end Service

/-- A frame of an instance of a template without parameters. -/
def frameAt (d : DeclId) (i : InstanceId) : Frame := ⟨d, i, [], none, {}⟩

/-- A request that refers to the first instance, with a chain on which the second is inside it. -/
def tether {α : Type} (c : Chain) (k : Except TemplateError InstanceId → Program Unit α) :
    Program Unit α :=
  .request (frameAt ⟨1⟩ ⟨1⟩ :: frameAt ⟨0⟩ ⟨0⟩ :: c) { decl := ⟨0⟩, need := .reference } k

/-- A front end that makes up frames when it elaborates an instance of the second template. -/
def tethering : Service Unit where
  evaluate _ _ := pure (.error ⟨"", {}⟩)
  openScope s := pure s
  declareSymbol _ _ _ := pure ()
  symbolName _ _ := ""
  elaborate c _ :=
    if (c.head?.map (·.decl)) = some ⟨1⟩ then tether c fun _ => .done (.ok []) else .done (.ok [])

/-- A client that makes up frames when both instances are there, and then asks for the second. -/
def tetherBoth : Program Unit (Except TemplateError InstanceId) :=
  .command (.declare { name := "A" }) fun _ => .command (.declare { name := "B" }) fun _ =>
    .request [] { decl := ⟨0⟩ } fun _ => tether [] fun _ => .request [] { decl := ⟨1⟩ } .done

/-- The machine of the client at its beginning. -/
def tetherBothBoot : Machine Unit (Except TemplateError InstanceId) :=
  .boot { digest := fun _ _ => default } () tetherBoth

theorem askBoth_hands : (askBoth Unit).Hands [] :=
  fun _ _ _ => ⟨.inl rfl, fun _ => ⟨.inl rfl, fun _ => trivial⟩⟩

theorem tethering_answered :
    tethering.Answered (askBothBoot ()) 10 19 { decl := ⟨1⟩ } (.ok ⟨1⟩) := by
  refine ⟨.client, [], .done, rfl, by decide, fun j hj hj' => ?_, rfl, rfl⟩
  interval_cases j <;> first | exact ⟨[], rfl⟩ | exact ⟨[_], rfl⟩

theorem sharing_answered :
    sharing.Answered tetherBothBoot 19 21 { decl := ⟨1⟩ } (.ok ⟨1⟩) := by
  refine ⟨.client, [], .done, rfl, by decide, fun j hj hj' => ?_, rfl, rfl⟩
  interval_cases j <;> exact ⟨[], rfl⟩

/-- The second instance is made to wait for the first, which is complete and will not release it. It
does so by frames that the front end makes up, and it is suspended at the end. With frames that
the client makes up it is complete and waits all the same. -/
theorem not_furnishesAtTop_tethering :
    ((askBoth Unit).Hands [] ∧ ¬tethering.FurnishesAtTop (askBothBoot ())) ∧
      (sharing.HandsOn ∧ ¬sharing.FurnishesAtTop tetherBothBoot) := by
  refine ⟨⟨askBoth_hands, fun h => ?_⟩, sharing_handsOn, fun h => ?_⟩
  · obtain ⟨x, hx, hs, -⟩ := h ⟨rfl, _, rfl⟩ tethering_answered rfl
    cases hx
    cases hs
  · obtain ⟨x, hx, -, hw⟩ := h ⟨rfl, _, rfl⟩ sharing_answered rfl
    cases hx
    cases hw

theorem twoWay_answered : twoWay.Answered twoWayBoot 2 21 { decl := ⟨0⟩ } (.ok ⟨0⟩) := by
  refine ⟨.client, [], .done, rfl, by decide, fun j hj hj' => ?_, rfl, rfl⟩
  interval_cases j <;> first | exact ⟨[], rfl⟩ | exact ⟨[_], rfl⟩ | exact ⟨[_, _], rfl⟩

theorem twoWay_gets : ∃ call p c q, twoWay.Gets twoWayBoot 7 16 (.elaborate call p ⟨0⟩) c q ⟨1⟩ ∧
    q.need = .members := by
  refine ⟨_, _, _, _, ⟨⟨_, rfl⟩, _, _, _, rfl, by decide, fun j hj hj' => ?_, rfl, rfl⟩, rfl⟩
  interval_cases j <;> first | exact ⟨[], rfl⟩ | exact ⟨[_], rfl⟩

/-- The first instance gets the second with its members while that waits for the first. The client
gets the first when it is complete. -/
theorem furnishes_twoWay :
    (∃ x, (twoWay.after 17 twoWayBoot).engine.inst? ⟨1⟩ = some x ∧ x.state = .suspended ∧
      x.members.isSome) ∧
    ∃ x, (twoWay.after 22 twoWayBoot).engine.inst? ⟨0⟩ = some x ∧ x.state = .complete ∧
      x.waitingOn = 0 := by
  have H : twoWay.Furnishes twoWayBoot := Service.furnishes
  have hm : twoWayBoot.Handed := Service.boot_handed twoWayClient_hands
  obtain ⟨call, p, c, q, hgets, hneed⟩ := twoWay_gets
  obtain ⟨x, hx, -, hmembers⟩ := H.furnished hgets hneed
  have hstate : some x.state = some .suspended := congrArg (Option.map Instance.state) hx.symm
  exact ⟨⟨x, hx, Option.some.inj hstate, hmembers⟩,
    H.atTop twoWay_handsOn hm ⟨rfl, _, rfl⟩ twoWay_answered rfl⟩

end Templates
