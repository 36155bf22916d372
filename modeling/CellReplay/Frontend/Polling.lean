import CellReplay.Frontend.Execution

set_option autoImplicit false

namespace CellReplay

open FueledLoop LinkQueue CellularQueue

variable {cfg : Config}

namespace LinkQueue

/-- Emulate the link up to some readings of the clock, one after the other. -/
def pollAll (fuel : Nat) (times : List Nat) (l : LinkQueue cfg) : Except Fault (LinkQueue cfg) :=
  times.foldlM (fun l now => l.rationalize fuel now) l

/-- An opportunity is filled in the same way with more turns than it needs. -/
theorem burnOpportunity_growing : Growing Fault.fuel (@burnOpportunity cfg) := by
  intro fewer more l outcome le burned done
  exact bind_extends (fun _ filled other => whileLoop_mono (fun _ _ step _ => step) le other filled)
    (fun _ _ recorded _ => recorded) done burned

theorem rationalize_mono {fewer more now : Nat} {l : LinkQueue cfg}
    {outcome : Except Fault (LinkQueue cfg)} (le : fewer ≤ more) (done : outcome ≠ .error .fuel)
    (run : l.rationalize fewer now = outcome) : l.rationalize more now = outcome :=
  whileLoop_mono (fun l x => burnOpportunity_growing fewer more l x le) le done run

/-- An opportunity that is due at a reading is due at every later one. -/
theorem opportunityDue_later {a b : Nat} (le : a ≤ b) (l : LinkQueue cfg)
    (due : opportunityDue a l = .ok true) : opportunityDue b l = .ok true := by
  have reached : l.nextDeliveryTime ≤ a := of_decide_eq_true (Except.ok.inj due)
  unfold opportunityDue
  congr 1
  simp only [decide_eq_true_eq]
  omega

/-- A poll at an earlier reading does not change what emulating the link comes to, whether that is
a state or a failed assertion. -/
theorem rationalize_polled (l : LinkQueue cfg) {a b : Nat} (le : a ≤ b)
    {outcome : Except Fault (LinkQueue cfg)} (done : outcome ≠ .error .fuel) :
    (∃ fuel, (l.rationalize fuel a >>= rationalize fuel b) = outcome) ↔
      ∃ fuel, l.rationalize fuel b = outcome :=
  whileLoop_split burnOpportunity_growing (fun _ => ⟨_, rfl⟩) (opportunityDue_later le) done

theorem pollAll_cons (fuel a : Nat) (times : List Nat) (l : LinkQueue cfg) :
    l.pollAll fuel (a :: times) = l.rationalize fuel a >>= pollAll fuel times := by
  rw [pollAll, List.foldlM_cons]
  rfl

/-- Polls that return, followed by a last one, come to the same with more turns. -/
theorem pollAll_mono {fewer more b : Nat} (times : List Nat) {l : LinkQueue cfg}
    {outcome : Except Fault (LinkQueue cfg)} (le : fewer ≤ more) (done : outcome ≠ .error .fuel)
    (run : (l.pollAll fewer times >>= rationalize fewer b) = outcome) :
    (l.pollAll more times >>= rationalize more b) = outcome := by
  induction times generalizing l outcome with
  | nil => exact rationalize_mono le done run
  | cons a times ih =>
      rw [pollAll_cons, bind_assoc] at run ⊢
      exact bind_extends (fun _ first other => rationalize_mono le other first)
        (fun _ _ rest other => ih other rest) done run

theorem rationalize_pollAll (l : LinkQueue cfg) (times : List Nat) {b : Nat}
    (earlier : ∀ a ∈ times, a ≤ b) {outcome : Except Fault (LinkQueue cfg)}
    (done : outcome ≠ .error .fuel) :
    (∃ fuel, (l.pollAll fuel times >>= rationalize fuel b) = outcome) ↔
      ∃ fuel, l.rationalize fuel b = outcome := by
  induction times generalizing l with
  | nil => exact Iff.rfl
  | cons a times ih =>
      have others : ∀ a ∈ times, a ≤ b := fun t member => earlier t (List.mem_cons_of_mem a member)
      rw [← rationalize_polled l (earlier a List.mem_cons_self) done]
      simp only [pollAll_cons, bind_assoc]
      constructor
      · exact bind_settles rationalize_mono (fun le last => rationalize_mono le done last)
          (fun mid => (ih mid others).mp)
      · exact bind_settles rationalize_mono (fun le rest => pollAll_mono times le done rest)
          (fun mid => (ih mid others).mpr)

end LinkQueue

/-- Polling is not observed: a run of `rationalize` up to a reading comes to the same state, or
the same failed assertion, or never ends, whether or not the link was polled before, once or any
number of times. -/
theorem polls_unobservable (l : LinkQueue cfg) {b : Nat} {outcome : Except Fault (LinkQueue cfg)}
    (done : outcome ≠ .error .fuel) :
    (∀ a ≤ b, ((∃ fuel, (l.rationalize fuel a >>= rationalize fuel b) = outcome) ↔
      ∃ fuel, l.rationalize fuel b = outcome)) ∧
    ∀ times : List Nat, (∀ a ∈ times, a ≤ b) →
      ((∃ fuel, (l.pollAll fuel times >>= rationalize fuel b) = outcome) ↔
        ∃ fuel, l.rationalize fuel b = outcome) :=
  ⟨fun _ le => rationalize_polled l le done,
    fun times earlier => rationalize_pollAll l times earlier done⟩

/-- A link that has one packet of 700 bytes and one of 1400 to send from 10 ms on. -/
def twoWaiting : LinkQueue undelayed :=
  { LinkQueue.init undelayed (.infinite {
      internalQueue := [.ofContents (List.replicate 700 0) 0, .ofContents fullPacket 0] }) 0 with
    currentLinkQueueSize := 2 }

/-- The polls fall before the first opportunity, on it, inside the second packet and behind
everything. -/
theorem polls_unobservable_insidePacket : ∃ fuel sent,
    (twoWaiting.pollAll fuel [3, 10, 17, 24] >>= rationalize fuel 30) = .ok sent ∧
      sent.outputQueue.map (fun p => p.contents.length) = [700, 1400] ∧
      sent.opportunities.map Opportunity.deliveryTime = [10, 20, 30] := by
  have observed : (twoWaiting.rationalize 5 30).toOption.map (fun l =>
      (l.outputQueue.map (fun p => p.contents.length),
        l.opportunities.map Opportunity.deliveryTime)) = some ([700, 1400], [10, 20, 30]) := by
    decide +kernel
  have ⟨sent, returned, seen⟩ := observe_ok observed
  have ⟨sizes, times⟩ := Prod.mk.inj seen
  have done : (.ok sent : Except Fault (LinkQueue undelayed)) ≠ .error .fuel := by simp
  have polled := (polls_unobservable twoWaiting (b := 30) done).2 [3, 10, 17, 24] (by decide)
  have ⟨fuel, run⟩ := polled.mpr ⟨5, returned⟩
  exact ⟨fuel, sent, run, sizes, times⟩

end CellReplay
