import Applesauce.Pipeline

/-!
# What runs of the pipeline achieve

If the writer's part returns success, every block was read, worked on and
consumed, each once and in order. Every run ends after a bounded number of
steps, and it cannot get stuck before. If reading, working and consuming
succeed on their own, so does every run.
-/

namespace Applesauce.PipelineRuns

open RustIo TransitionSystem SeqQueue Pipeline

variable {ι τ σ : Type} {plan : Plan ι τ σ} {start : σ} {s t : Pipeline.State ι τ σ}

section Success

/-- Finished slots have the values that a filter keeps. -/
theorem values_of_finished {slots : List (SlotState τ)}
    (h : ∀ slot∈slots, ∃ item accepted, slot=.finished item accepted) :
    slots.map SlotState.value=(slots.filterMap SlotState.value).map some := by
  induction slots with
  | nil => rfl
  | cons slot slots ih =>
    obtain ⟨item,accepted,rfl⟩ := h slot List.mem_cons_self
    have hrest := ih (fun other hother => h other (List.mem_cons_of_mem _ hother))
    rw [List.map_cons,hrest]
    rfl

/-- A slot with a value holds what became of its block. -/
theorem settled_value {plan : Plan ι τ σ} (h : Wired plan start s) {slot : ℕ} {chunk : τ}
    (hvalue : (s.queue.slots.map SlotState.value)[slot]?=some (some chunk)) :
    ∃ item, plan.reading.items[slot]?=some item ∧ plan.work item=.ok chunk := by
  rw [List.getElem?_map] at hvalue
  obtain ⟨state,hstate,hchunk⟩ := Option.map_eq_some_iff.mp hvalue
  obtain ⟨_,accepted,rfl⟩ := finished_of_value hchunk
  obtain rfl := Option.some.inj hchunk
  cases h.slots slot _ hstate with
  | assigned item hmem =>
    obtain ⟨_,other,hother,hactive⟩ := h.assigned _ hmem
    rw [hstate] at hother
    obtain rfl := Option.some.inj hother
    exact hactive.elim
  | settled item hitem hsettled => exact ⟨item,hitem,hsettled⟩
  | abandoning hreader =>
    have hfits := h.reader
    unfold Pipeline.State.ReaderFits at hfits
    rw [hreader] at hfits
    obtain ⟨_,_,_,_,hbad|hbad⟩ := hfits
    · rw [hstate] at hbad
      cases hbad
    · rw [hstate] at hbad
      cases hbad
  | abandoned hle hdropped => cases hdropped

/-- A sender that finished with success has submitted every block. -/
theorem wired_finished (h : Wired plan start s) (hok : s.queue.sender.finishedOk)
    (hr : s.queue.receiver=.done (.ok ())) :
    plan.reading.ending=.ok () ∧ s.queue.slots.length=
      plan.reading.items.length+(if plan.reading.slotHeld then 1 else 0) := by
  have hfits := h.reader
  unfold Pipeline.State.ReaderFits at hfits
  have hlive : s.queue.sender≠.live := by
    intro hbad
    rw [hbad] at hok
    exact hok
  have hover : ∀ {result : Except Fault Unit}, Over plan s result → result=.ok () →
      plan.reading.ending=.ok () ∧ s.queue.slots.length=
        plan.reading.items.length+(if plan.reading.slotHeld then 1 else 0) := by
    intro result hover hresult
    rcases hover with ⟨e,he⟩|⟨hending,hlength⟩
    · rw [hr] at he
      cases he
    · exact ⟨hending.symm.trans hresult,hlength⟩
  cases hreader : s.reader with
  | preparing rest => rw [hreader] at hfits; exact (hlive hfits.1).elim
  | submitting slot item rest => rw [hreader] at hfits; exact (hlive hfits.1).elim
  | working slot item rest => rw [hreader] at hfits; exact (hlive hfits.1).elim
  | abandoning slot => rw [hreader] at hfits; exact (hlive hfits.1).elim
  | finishing result => rw [hreader] at hfits; exact (hlive hfits.1).elim
  | recorded =>
    rw [hreader] at hfits
    obtain ⟨result,hsender,hov⟩ := hfits
    rw [hsender] at hok
    cases result with
    | ok _ => exact hover hov rfl
    | error e => exact hok.elim
  | returned =>
    rw [hreader] at hfits
    obtain ⟨result,hsender,hov⟩ := hfits
    rw [hsender] at hok
    cases result with
    | ok _ => exact hover hov rfl
    | error e => exact hok.elim

/-- What a returned success means: reading succeeded, every block was worked on,
and the results were consumed in the order of the blocks. -/
theorem wired_ok (h : Wired plan start s) (hr : s.queue.receiver=.done (.ok ())) :
    plan.reading.ending=.ok () ∧ plan.reading.items.map plan.work=s.queue.seen.map .ok ∧
      consumeAll plan.consume s.queue.seen start=.ok () s.sink := by
  obtain ⟨hsender,hall,hseen⟩ := h.sound.ok hr
  obtain ⟨hending,hlength⟩ := wired_finished h hsender hr
  have hvalues := values_of_finished hall
  rw [←hseen] at hvalues
  have hget : ∀ {slot : ℕ}, slot<s.queue.slots.length →
      ∃ item chunk, plan.reading.items[slot]?=some item ∧ s.queue.seen[slot]?=some chunk ∧
        plan.work item=.ok chunk := by
    intro slot hlt
    have hlen := congrArg List.length hvalues
    rw [List.length_map,List.length_map] at hlen
    obtain ⟨chunk,hchunk⟩ : ∃ chunk, s.queue.seen[slot]?=some chunk :=
      ⟨_,List.getElem?_eq_getElem (by omega)⟩
    have hvalue : (s.queue.slots.map SlotState.value)[slot]?=some (some chunk) := by
      rw [hvalues,List.getElem?_map,hchunk]
      rfl
    obtain ⟨item,hitem,hwork⟩ := settled_value h hvalue
    exact ⟨item,chunk,hitem,hchunk,hwork⟩
  have hcount : s.queue.slots.length=plan.reading.items.length := by
    cases hheld : plan.reading.slotHeld with
    | false =>
      rw [hheld,if_neg Bool.false_ne_true] at hlength
      exact hlength
    | true =>
      rw [hheld,if_pos rfl] at hlength
      obtain ⟨item,_,hitem,_⟩ := @hget plan.reading.items.length (by omega)
      exact (Nat.lt_irrefl _ (List.getElem?_eq_some_iff.mp hitem).1).elim
  refine ⟨hending,?_,h.consumed (fun e he => ?_)⟩
  · refine List.ext_getElem? (fun slot => ?_)
    rw [List.getElem?_map,List.getElem?_map]
    by_cases hlt : slot<s.queue.slots.length
    · obtain ⟨item,chunk,hitem,hchunk,hwork⟩ := hget hlt
      rw [hitem,hchunk,Option.map_some,Option.map_some,hwork]
    · have hseenLength := congrArg List.length hvalues
      rw [List.length_map,List.length_map] at hseenLength
      rw [List.getElem?_eq_none (by omega),List.getElem?_eq_none (by omega)]
      rfl
  · rw [hr] at he
    cases he

/-- The invariant holds at the end of every run. -/
theorem wired_of_run (hcalm : plan.Calm) {trace : List (Pipeline.State ι τ σ×Pipeline.Event)}
    (run : Run (Pipeline.step plan) (Pipeline.initial plan start) trace s) : Wired plan start s :=
  run.invariant (wired_initial plan start) (wired_step hcalm)

end Success

section Length

/-- Steps left to a slot. -/
def slotCost : SlotState τ→ℕ
  | .live => 2
  | .disarmed _ => 1
  | .errorSet => 1
  | .senderDropped => 1
  | _ => 0

/-- Steps left to the reader, and those that a new slot brings. -/
def readerCost : ReaderState ι→ℕ
  | .preparing rest => 8*rest.length+10
  | .submitting _ _ rest => 8*rest.length+12
  | .working _ _ rest => 8*rest.length+12
  | .abandoning _ => 3
  | .finishing _ => 2
  | .recorded => 1
  | .returned => 0

/-- Steps left to the writer, apart from the slots in the channel. -/
def receiverCost : ReceiverState τ Fault→ℕ
  | .receiving => 3
  | .awaiting _ => 5
  | .applying _ => 4
  | .finishing => 2
  | .taking => 1
  | .done _ => 0

/-- A bound for the steps left. -/
def cost (s : Pipeline.State ι τ σ) : ℕ :=
  readerCost s.reader+(s.queue.slots.map slotCost).sum+s.jobs.length+3*s.queue.channel.length+
    receiverCost s.queue.receiver

/-- Every step of a slot is one of its last. -/
theorem slotCost_act {accepted : Bool} {state next : SlotState τ} {action : SlotAction τ Fault}
    {effect : FinalSuccessData Fault→FinalSuccessData Fault}
    (h : state.act accepted action=some (next,effect)) : slotCost next+1=slotCost state := by
  cases state <;> cases action <;> cases h <;> rfl

/-- Replacing a number of a list replaces it in the sum. -/
theorem sum_map_set {f : SlotState τ→ℕ} {slots : List (SlotState τ)} {index : ℕ}
    {state next : SlotState τ} (h : slots[index]?=some state) :
    ((slots.set index next).map f).sum+f state=(slots.map f).sum+f next := by
  induction slots generalizing index with
  | nil => cases h
  | cons slot slots ih =>
    cases index with
    | zero =>
      obtain rfl := Option.some.inj h
      simp only [List.set_cons_zero,List.map_cons,List.sum_cons]
      omega
    | succ index =>
      have hrest := ih h
      simp only [List.set_cons_succ,List.map_cons,List.sum_cons]
      omega

/-- A step of a slot leaves one step less. -/
theorem cost_setSlot {plan : Plan ι τ σ} {queue after : SeqQueue.State τ Fault} {slot : ℕ}
    {action : SlotAction τ Fault} (h : plan.queueStep queue (.slot slot action)=some after) :
    (after.slots.map slotCost).sum<(queue.slots.map slotCost).sum ∧ after.channel=queue.channel ∧
      after.receiver=queue.receiver := by
  obtain ⟨state,next,effect,hslot,hact,rfl⟩ := step_slot h
  have hsum := @sum_map_set τ slotCost queue.slots slot state next hslot
  have hcost := slotCost_act hact
  refine ⟨?_,rfl,rfl⟩
  unfold SeqQueue.State.setSlot
  dsimp only
  omega

/-- A step of a thread on its slot leaves one step less. -/
theorem cost_slotStep {plan : Plan ι τ σ} {queue after : SeqQueue.State τ Fault} {slot : ℕ} {item : ι}
    (h : plan.slotStep queue slot item=some after) :
    (after.slots.map slotCost).sum<(queue.slots.map slotCost).sum ∧ after.channel=queue.channel ∧
      after.receiver=queue.receiver := by
  unfold Plan.slotStep at h
  cases hslot : queue.slots[slot]? with
  | none => rw [hslot] at h; cases h
  | some state =>
    rw [hslot] at h
    dsimp only at h
    cases haction : slotAction (plan.work item) state with
    | none => rw [haction] at h; cases h
    | some action =>
      rw [haction] at h
      exact cost_setSlot h

/-- Going on with the blocks to come costs no more than preparing for them. -/
theorem readerCost_next (plan : Plan ι τ σ) (rest : List ι) :
    readerCost (plan.next rest)≤8*rest.length+10 := by
  cases rest with
  | cons item rest => exact Nat.le_refl _
  | nil =>
    unfold Plan.next
    dsimp only
    cases plan.reading.slotHeld with
    | true => exact Nat.le_refl _
    | false => exact Nat.le_of_ble_eq_true rfl

/-- A step of the receiver leaves fewer. -/
theorem cost_receiver {plan : Plan ι τ σ} {queue after : SeqQueue.State τ Fault}
    {e : SeqQueue.Event τ Fault} (he : e.isReceiver=true) (h : plan.queueStep queue e=some after) :
    3*after.channel.length+receiverCost after.receiver<
      3*queue.channel.length+receiverCost queue.receiver := by
  cases e with
  | prepareSend => cases he
  | finishSender result => cases he
  | dropSender => cases he
  | slot index action => cases he
  | recvChannel =>
    obtain ⟨hr,⟨_,_,hc,rfl⟩|⟨hc,_,rfl⟩⟩|⟨hr,⟨_,rfl⟩|⟨_,_,rfl⟩⟩ := step_recvChannel h
    · rw [hr,hc,List.length_cons]
      simp only [receiverCost]
      omega
    · rw [hr,hc]
      simp only [receiverCost]
      omega
    · rw [hr]
      simp only [receiverCost,List.length_nil]
      omega
    · rw [hr]
      simp only [receiverCost]
      omega
  | recvItem =>
    obtain ⟨_,_,hr,_,⟨_,_,rfl⟩|⟨_,rfl⟩⟩ := step_recvItem h
    · rw [hr]
      simp only [receiverCost]
      omega
    · rw [hr]
      simp only [receiverCost]
      omega
  | callback result =>
    obtain ⟨_,hr,⟨_,rfl⟩|⟨_,_,rfl⟩⟩ := step_callback h
    · rw [hr]
      simp only [receiverCost]
      omega
    · rw [hr]
      simp only [receiverCost,List.length_nil]
      omega
  | takeResult =>
    obtain ⟨hr,⟨_,rfl⟩|⟨_,_,rfl⟩⟩ := step_takeResult h
    · rw [hr]
      simp only [receiverCost]
      omega
    · rw [hr]
      simp only [receiverCost]
      omega

/-- A reader that asks for a slot gets one that costs less than the items it has left. -/
theorem cost_preparing {rest : List ι} (hreader : s.reader=.preparing rest)
    (h : plan.readerStep s=some t) : cost t<cost s := by
  unfold Plan.readerStep at h
  rw [hreader] at h
  dsimp only at h
  cases hqueue : plan.queueStep s.queue .prepareSend with
  | none => rw [hqueue] at h; cases h
  | some queue =>
    rw [hqueue] at h
    dsimp only at h
    unfold cost
    obtain ⟨_,⟨hd,rfl⟩|⟨hopen,rfl⟩⟩ := step_prepareSend hqueue
    · rw [hd,if_pos rfl] at h
      obtain rfl := Option.some.inj h
      rw [hreader]
      simp only [readerCost]
      omega
    · rw [hopen,if_neg Bool.false_ne_true] at h
      obtain rfl := Option.some.inj h
      have hslots : ((s.queue.slots++[SlotState.live]).map slotCost).sum=
          (s.queue.slots.map slotCost).sum+2 := by
        rw [List.map_append,List.sum_append]
        rfl
      dsimp only
      rw [hreader,hslots,List.length_append,List.length_singleton]
      cases rest with
      | nil =>
        simp only [Plan.holding,readerCost,List.length_nil]
        omega
      | cons item rest =>
        simp only [Plan.holding]
        split
        · simp only [readerCost,List.length_cons]
          omega
        · simp only [readerCost,List.length_cons]
          omega

/-- A reader that drops a slot has less to do. -/
theorem cost_abandoning {slot : ℕ} (hreader : s.reader=.abandoning slot)
    (h : plan.readerStep s=some t) : cost t<cost s := by
  unfold Plan.readerStep at h
  rw [hreader] at h
  dsimp only at h
  unfold cost
  split at h
  · obtain ⟨queue,hqueue,rfl⟩ := Option.map_eq_some_iff.mp h
    obtain ⟨hsum,hchannel,hreceiver⟩ := cost_setSlot hqueue
    dsimp only
    rw [hreader,hchannel,hreceiver]
    simp only [readerCost]
    omega
  · obtain ⟨queue,hqueue,rfl⟩ := Option.map_eq_some_iff.mp h
    obtain ⟨hsum,hchannel,hreceiver⟩ := cost_setSlot hqueue
    dsimp only
    rw [hreader,hchannel,hreceiver]
    simp only [readerCost]
    omega
  · cases h

/-- Every step of the reader leaves fewer. -/
theorem cost_readerStep (h : plan.readerStep s=some t) : cost t<cost s := by
  cases hreader : s.reader with
  | preparing rest => exact cost_preparing hreader h
  | submitting slot item rest =>
    unfold Plan.readerStep at h
    rw [hreader] at h
    dsimp only at h
    split at h
    · obtain rfl := Option.some.inj h
      have hnext := readerCost_next plan rest
      have hbefore : readerCost (.submitting slot item rest)=8*rest.length+12 := rfl
      unfold cost
      dsimp only
      rw [hreader,List.length_append,List.length_singleton]
      omega
    · cases h
  | working slot item rest =>
    unfold Plan.readerStep at h
    rw [hreader] at h
    dsimp only at h
    cases hslot : plan.slotStep s.queue slot item with
    | none => rw [hslot] at h; cases h
    | some queue =>
      rw [hslot] at h
      obtain rfl := Option.some.inj h
      obtain ⟨hsum,hchannel,hreceiver⟩ := cost_slotStep hslot
      have hnext := readerCost_next plan rest
      have hbefore : readerCost (.working slot item rest)=8*rest.length+12 := rfl
      unfold cost
      dsimp only
      rw [hreader,hchannel,hreceiver]
      split
      · omega
      · omega
  | abandoning slot => exact cost_abandoning hreader h
  | finishing result =>
    unfold Plan.readerStep at h
    rw [hreader] at h
    obtain ⟨queue,hqueue,rfl⟩ := Option.map_eq_some_iff.mp h
    obtain ⟨_,rfl⟩ := step_finishSender hqueue
    simp only [cost,hreader,readerCost]
    omega
  | recorded =>
    unfold Plan.readerStep at h
    rw [hreader] at h
    obtain ⟨queue,hqueue,rfl⟩ := Option.map_eq_some_iff.mp h
    obtain ⟨next,_,rfl⟩ := Option.map_eq_some_iff.mp hqueue
    simp only [cost,hreader,readerCost]
    omega
  | returned =>
    unfold Plan.readerStep at h
    rw [hreader] at h
    cases h

/-- Every step of every thread leaves fewer. -/
theorem cost_step {e : Pipeline.Event} (h : Pipeline.step plan s e=some t) : cost t<cost s := by
  cases e with
  | reader => exact cost_readerStep h
  | take =>
    unfold Pipeline.step at h
    dsimp only at h
    unfold cost
    cases hjobs : s.jobs with
    | nil => rw [hjobs] at h; cases h
    | cons job jobs =>
      rw [hjobs] at h
      dsimp only at h
      split at h
      · obtain rfl := Option.some.inj h
        dsimp only
        rw [List.length_cons]
        omega
      · cases h
  | work slot =>
    obtain ⟨item,queue,_,hslot,rfl⟩ := workStep_cases h
    obtain ⟨hsum,hchannel,hreceiver⟩ := cost_slotStep hslot
    unfold cost
    dsimp only
    rw [hchannel,hreceiver]
    omega
  | writer =>
    obtain ⟨e,sink,queue,hevent,hqueue,rfl⟩ := writerStep_cases h
    obtain ⟨hreceiver,_⟩ := writerEvent_cases hevent
    have hless := cost_receiver hreceiver hqueue
    obtain ⟨hslots,_⟩ := step_receiver hreceiver hqueue
    unfold cost
    dsimp only
    rw [hslots]
    omega

/-- No run is longer than eight steps a block and a few more. -/
theorem run_length_le {trace : List (Pipeline.State ι τ σ×Pipeline.Event)}
    (run : Run (Pipeline.step plan) (Pipeline.initial plan start) trace s) :
    trace.length≤8*plan.reading.items.length+13 := by
  have hbound := run.length_le (fun h => cost_step h)
  have hreader := readerCost_next plan plan.reading.items
  have hstart : cost (Pipeline.initial plan start)=
      readerCost (plan.next plan.reading.items)+3 := rfl
  omega

end Length

section Progress

/-- Every thread is done with the file. -/
def Ended (s : Pipeline.State ι τ σ) : Prop :=
  (∃ result, s.queue.receiver=.done result) ∧ s.reader=.returned ∧ s.jobs=[] ∧ s.held=[]

/-- A channel with an item or without a sender answers. -/
theorem recv_answers {queue : SeqQueue.State τ Fault}
    (h : queue.channel≠[] ∨ ∃ result, queue.sender=.gone result) : ∃ r, queue.recv=some r := by
  unfold SeqQueue.State.recv
  cases hchannel : queue.channel with
  | cons slot channel => exact ⟨_,rfl⟩
  | nil =>
    rcases h with hne|⟨result,hgone⟩
    · exact (hne hchannel).elim
    · rw [hgone]
      exact ⟨_,rfl⟩

/-- With no block on the way the writer can move, unless it waits for the reader. -/
theorem writer_moves (h : Wired plan start s) (hassigned : s.assigned=[])
    (hreader : ∀ slot, s.reader≠.abandoning slot)
    (hopen : ∀ result, s.queue.receiver≠.done result)
    (hchannel : s.queue.receiver.onChannel=true →
      s.queue.channel≠[] ∨ ∃ result, s.queue.sender=.gone result) :
    ∃ t, plan.writerStep s=some t := by
  unfold Plan.writerStep
  have hmap : ∀ {e : SeqQueue.Event τ Fault} {sink : σ} {queue : SeqQueue.State τ Fault},
      plan.queueStep s.queue e=some queue → ∃ t,
        (plan.queueStep s.queue e).map (fun queue => {s with queue := queue, sink := sink})=some t := by
    intro e sink queue hstep
    rw [hstep]
    exact ⟨_,rfl⟩
  cases hr : s.queue.receiver with
  | receiving =>
    obtain ⟨r,hrecv⟩ := recv_answers (hchannel (by rw [hr]; rfl))
    have hstep : ∃ queue, plan.queueStep s.queue .recvChannel=some queue := by
      unfold Plan.queueStep SeqQueue.step
      dsimp only
      rw [hr,hrecv]
      exact ⟨_,rfl⟩
    obtain ⟨queue,hqueue⟩ := hstep
    exact hmap hqueue
  | finishing =>
    obtain ⟨r,hrecv⟩ := recv_answers (hchannel (by rw [hr]; rfl))
    have hstep : ∃ queue, plan.queueStep s.queue .recvChannel=some queue := by
      unfold Plan.queueStep SeqQueue.step
      dsimp only
      rw [hr,hrecv]
      exact ⟨_,rfl⟩
    obtain ⟨queue,hqueue⟩ := hstep
    exact hmap hqueue
  | awaiting index =>
    have hp := h.agrees.positioned
    unfold SeqQueue.State.Positioned at hp
    rw [hr] at hp
    obtain ⟨_,hlt,_⟩ := hp
    have hslot : s.queue.slots[index]?=some s.queue.slots[index] := List.getElem?_eq_getElem hlt
    have hstep : ∃ queue, plan.queueStep s.queue .recvItem=some queue := by
      unfold Plan.queueStep SeqQueue.step
      dsimp only
      rw [hr]
      dsimp only
      rw [hslot]
      cases h.slots index _ hslot with
      | assigned item hmem =>
        rw [hassigned] at hmem
        cases hmem
      | settled item hitem hsettled =>
        cases hstate : s.queue.slots[index] with
        | finished chunk accepted => exact ⟨_,rfl⟩
        | errored => exact ⟨_,rfl⟩
        | live => rw [hstate] at hsettled; exact hsettled.elim
        | disarmed chunk => rw [hstate] at hsettled; exact hsettled.elim
        | errorSet => rw [hstate] at hsettled; exact hsettled.elim
        | senderDropped => rw [hstate] at hsettled; exact hsettled.elim
        | dropped => rw [hstate] at hsettled; exact hsettled.elim
      | abandoning hbad => exact (hreader index hbad).elim
      | abandoned hle hdropped =>
        rw [hdropped]
        exact ⟨_,rfl⟩
    obtain ⟨queue,hqueue⟩ := hstep
    exact hmap hqueue
  | applying chunk =>
    have hstep : ∀ result, ∃ queue, plan.queueStep s.queue (.callback result)=some queue := by
      intro result
      unfold Plan.queueStep SeqQueue.step
      dsimp only
      rw [hr]
      cases result with
      | ok _ => exact ⟨_,rfl⟩
      | error e => exact ⟨_,rfl⟩
    unfold Plan.writerEvent
    dsimp only
    cases plan.consume chunk s.sink with
    | ok value sink =>
      obtain ⟨queue,hqueue⟩ := hstep (.ok ())
      exact hmap hqueue
    | error e sink =>
      obtain ⟨queue,hqueue⟩ := hstep (.error e)
      exact hmap hqueue
  | taking =>
    have hstep : ∃ queue, plan.queueStep s.queue .takeResult=some queue := by
      unfold Plan.queueStep SeqQueue.step
      dsimp only
      rw [hr]
      dsimp only
      cases getResult s.queue.cell with
      | ok _ => exact ⟨_,rfl⟩
      | error e => exact ⟨_,rfl⟩
    obtain ⟨queue,hqueue⟩ := hstep
    exact hmap hqueue
  | done result => exact (hopen result hr).elim

/-- A worker that holds a block can move. -/
theorem work_moves (h : Wired plan start s) {job : ℕ×ι} (hjob : job∈s.held) :
    ∃ t, plan.workStep s job.1=some t := by
  unfold Plan.workStep
  cases hlookup : s.held.lookup job.1 with
  | none => exact (bne_iff_ne.mp (List.lookup_eq_none_iff.mp hlookup job hjob) rfl).elim
  | some item =>
    have hheld : (job.1,item)∈s.held := by
      obtain ⟨front,back,heq,_⟩ := List.lookup_eq_some_iff.mp hlookup
      rw [heq]
      exact List.mem_append_right _ List.mem_cons_self
    obtain ⟨_,state,hslot,hactive⟩ :=
      h.assigned _ (List.mem_append_right _ (List.mem_append_right _ hheld))
    obtain ⟨_,next,effect,_,_,_,hslotStep,_⟩ := slotStep_active hslot hactive
    dsimp only
    rw [hslotStep]
    exact ⟨_,rfl⟩

/-- A reader that prepares a slot can move, or the writer can make room. -/
theorem preparing_moves (h : Wired plan start s) {rest : List ι} (hreader : s.reader=.preparing rest)
    (hassigned : s.assigned=[]) : ∃ e t, Pipeline.step plan s e=some t := by
  have hfits := h.reader
  unfold Pipeline.State.ReaderFits at hfits
  rw [hreader] at hfits
  have hlive := hfits.1
  have hsome : ∀ {queue : SeqQueue.State τ Fault}, plan.queueStep s.queue .prepareSend=some queue →
      ∃ e t, Pipeline.step plan s e=some t := by
    intro queue hqueue
    refine ⟨.reader,?_⟩
    change ∃ t, plan.readerStep s=some t
    unfold Plan.readerStep
    rw [hreader]
    dsimp only
    rw [hqueue]
    dsimp only
    split
    · exact ⟨_,rfl⟩
    · exact ⟨_,rfl⟩
  cases hd : s.queue.receiver.disconnected with
  | true =>
    refine @hsome s.queue ?_
    unfold Plan.queueStep SeqQueue.step
    dsimp only
    rw [hlive]
    dsimp only
    rw [if_pos hd]
  | false =>
    by_cases hroom : s.queue.hasRoom plan.capacity=true
    · have hstep : ∃ queue, plan.queueStep s.queue .prepareSend=some queue := by
        unfold Plan.queueStep SeqQueue.step
        dsimp only
        rw [hlive]
        dsimp only
        rw [if_neg (by rw [hd]; exact Bool.false_ne_true),if_pos hroom]
        exact ⟨_,rfl⟩
      obtain ⟨queue,hqueue⟩ := hstep
      exact hsome hqueue
    · have hchannel : s.queue.receiver.onChannel=true → s.queue.channel≠[] := by
        intro hon hempty
        refine hroom ?_
        unfold SeqQueue.State.hasRoom
        rw [hempty,hon]
        cases plan.capacity with
        | zero => rfl
        | succ n => rfl
      obtain ⟨t,ht⟩ := writer_moves h hassigned (fun slot hbad => (by rw [hreader] at hbad; cases hbad))
        (fun result hbad => (by rw [hbad] at hd; cases hd)) (fun hon => Or.inl (hchannel hon))
      exact ⟨.writer,t,ht⟩

/-- A reader that has prepared its last slot can move. -/
theorem reader_moves (h : Wired plan start s) (hjobs : s.jobs=[])
    (hreader : s.reader≠.returned) (hnot : ∀ rest, s.reader≠.preparing rest) :
    ∃ t, plan.readerStep s=some t := by
  have hfits := h.reader
  unfold Pipeline.State.ReaderFits at hfits
  unfold Plan.readerStep
  cases hr : s.reader with
  | preparing rest => exact (hnot rest hr).elim
  | submitting slot item rest =>
    have hroom : s.jobs.length<queueCapacity := by
      rw [hjobs]
      exact Nat.zero_lt_succ _
    dsimp only
    rw [if_pos hroom]
    exact ⟨_,rfl⟩
  | working slot item rest =>
    have hmem : (slot,item)∈s.assigned := by
      unfold Pipeline.State.assigned Pipeline.State.inHand
      rw [hr]
      exact List.mem_cons_self
    obtain ⟨_,state,hslot,hactive⟩ := h.assigned _ hmem
    obtain ⟨_,next,effect,_,_,_,hslotStep,_⟩ := slotStep_active hslot hactive
    dsimp only
    rw [hslotStep]
    exact ⟨_,rfl⟩
  | abandoning slot =>
    rw [hr] at hfits
    obtain ⟨_,_,_,_,hstate|hstate⟩ := hfits
    · dsimp only
      rw [hstate]
      unfold Plan.queueStep SeqQueue.step
      dsimp only
      rw [hstate]
      exact ⟨_,rfl⟩
    · dsimp only
      rw [hstate]
      unfold Plan.queueStep SeqQueue.step
      dsimp only
      rw [hstate]
      exact ⟨_,rfl⟩
  | finishing result =>
    rw [hr] at hfits
    unfold Plan.queueStep SeqQueue.step
    dsimp only
    rw [hfits.1]
    exact ⟨_,rfl⟩
  | recorded =>
    rw [hr] at hfits
    obtain ⟨result,hsender,_⟩ := hfits
    unfold Plan.queueStep SeqQueue.step
    dsimp only
    rw [hsender]
    exact ⟨_,rfl⟩
  | returned => exact (hreader hr).elim

/-- No run gets stuck: as long as some thread is not done, some thread can move. -/
theorem progress (h : Wired plan start s) (hthreads : 0<plan.threads) :
    Ended s ∨ ∃ e t, Pipeline.step plan s e=some t := by
  cases hheld : s.held with
  | cons job held =>
    obtain ⟨t,ht⟩ := @work_moves _ _ _ plan start s h job (by rw [hheld]; exact List.mem_cons_self)
    exact Or.inr ⟨.work job.1,t,ht⟩
  | nil =>
    cases hjobs : s.jobs with
    | cons job jobs =>
      refine Or.inr ⟨.take,{s with jobs := jobs, held := s.held++[job]},?_⟩
      unfold Pipeline.step
      dsimp only
      rw [hjobs]
      dsimp only
      rw [if_pos (by rw [hheld]; exact hthreads)]
    | nil =>
      by_cases hreturned : s.reader=.returned
      · have hassigned : s.assigned=[] := by
          unfold Pipeline.State.assigned Pipeline.State.inHand
          rw [hreturned,hjobs,hheld]
          rfl
        have hfits := h.reader
        unfold Pipeline.State.ReaderFits at hfits
        rw [hreturned] at hfits
        obtain ⟨result,hgone,_⟩ := hfits
        by_cases hdone : ∃ result, s.queue.receiver=.done result
        · exact Or.inl ⟨hdone,hreturned,hjobs,hheld⟩
        · obtain ⟨t,ht⟩ := writer_moves h hassigned
            (fun slot hbad => (by rw [hreturned] at hbad; cases hbad))
            (fun result hbad => hdone ⟨result,hbad⟩) (fun _ => Or.inr ⟨some result,hgone⟩)
          exact Or.inr ⟨.writer,t,ht⟩
      · by_cases hpreparing : ∃ rest, s.reader=.preparing rest
        · obtain ⟨rest,hreader⟩ := hpreparing
          refine Or.inr (preparing_moves h hreader ?_)
          unfold Pipeline.State.assigned Pipeline.State.inHand
          rw [hreader,hjobs,hheld]
          rfl
        · obtain ⟨t,ht⟩ := reader_moves h hjobs hreturned
            (fun rest hbad => hpreparing ⟨rest,hbad⟩)
          exact Or.inr ⟨.reader,t,ht⟩

end Progress

section Healthy

/-- On their own, reading, working and consuming succeed. -/
structure Healthy (plan : Plan ι τ σ) (start : σ) (chunks : List τ) (final : σ) : Prop where
  ending : plan.reading.ending=.ok ()
  slotHeld : plan.reading.slotHeld=false
  works : plan.reading.items.map plan.work=chunks.map .ok
  consumes : consumeAll plan.consume chunks start=.ok () final

variable {chunks : List τ} {final : σ}

/-- What becomes of a block when everything succeeds. -/
theorem Healthy.work (hh : Healthy plan start chunks final) {slot : ℕ} {item : ι}
    (hitem : plan.reading.items[slot]?=some item) :
    ∃ chunk, chunks[slot]?=some chunk ∧ plan.work item=.ok chunk := by
  have hget : (plan.reading.items.map plan.work)[slot]?=(chunks.map Except.ok)[slot]? := by
    rw [hh.works]
  rw [List.getElem?_map,List.getElem?_map,hitem,Option.map_some] at hget
  obtain ⟨chunk,hchunk,heq⟩ := Option.map_eq_some_iff.mp hget.symm
  exact ⟨chunk,hchunk,heq.symm⟩

/-- Work that succeeds does not panic. -/
theorem Healthy.calm (hh : Healthy plan start chunks final) : plan.Calm := by
  intro item hitem message hpanic
  obtain ⟨slot,hslot⟩ := List.mem_iff_getElem?.mp hitem
  obtain ⟨chunk,_,hwork⟩ := hh.work hslot
  rw [hwork] at hpanic
  cases hpanic

/-- A queue on its way to success. -/
structure Fine (queue : SeqQueue.State τ Fault) : Prop where
  /-- The receiver has not failed. -/
  noError : ∀ e, queue.receiver≠.done (.error e)
  /-- The receiver looks for the result only behind the last item. -/
  atEnd : queue.receiver=.finishing → queue.channel=[] ∧ ∃ result, queue.sender=.gone result
  /-- The cell waits for the sender. -/
  waiting : queue.sender=.live → queue.cell=none
  /-- The cell holds the success of the sender until it is taken. -/
  recorded : queue.sender≠.live → queue.cell=some (.ok ()) ∨ ∃ result, queue.receiver=.done result

/-- No slot is prepared in vain. -/
theorem slots_length_le (hh : Healthy plan start chunks final) (h : Wired plan start s)
    (hok : ∀ e, s.queue.receiver≠.done (.error e)) :
    s.queue.slots.length≤plan.reading.items.length := by
  have hfits := h.reader
  unfold Pipeline.State.ReaderFits at hfits
  have hdrop : ∀ {slot : ℕ} {item : ι} {rest : List ι}, plan.reading.items.drop slot=item::rest →
      slot<plan.reading.items.length := by
    intro slot item rest hdrop
    have hlen := congrArg List.length hdrop
    rw [List.length_drop,List.length_cons] at hlen
    omega
  have hover : ∀ {result : Except Fault Unit}, Over plan s result →
      s.queue.slots.length≤plan.reading.items.length := by
    intro result hover
    rcases hover with ⟨e,he⟩|⟨_,hlength⟩
    · exact (hok e he).elim
    · rw [hh.slotHeld,if_neg Bool.false_ne_true] at hlength
      exact Nat.le_of_eq hlength
  cases hreader : s.reader with
  | preparing rest => rw [hreader] at hfits; exact hfits.2.1
  | submitting slot item rest =>
    rw [hreader] at hfits
    rw [hfits.2.1]
    exact hdrop hfits.2.2
  | working slot item rest =>
    rw [hreader] at hfits
    rw [hfits.2.1]
    exact hdrop hfits.2.2
  | abandoning slot =>
    rw [hreader] at hfits
    obtain ⟨_,_,_,hheld,_⟩ := hfits
    rw [hh.slotHeld] at hheld
    cases hheld
  | finishing result => rw [hreader] at hfits; exact hover hfits.2
  | recorded =>
    rw [hreader] at hfits
    obtain ⟨_,_,hov⟩ := hfits
    exact hover hov
  | returned =>
    rw [hreader] at hfits
    obtain ⟨_,_,hov⟩ := hfits
    exact hover hov

/-- No slot is lost. -/
theorem not_lost (hh : Healthy plan start chunks final) (h : Wired plan start s)
    (hok : ∀ e, s.queue.receiver≠.done (.error e)) {slot : ℕ} {state : SlotState τ}
    (hslot : s.queue.slots[slot]?=some state) (hlost : state.lost=true) : False := by
  have hreaderHeld : ∀ {k : ℕ}, s.reader≠.abandoning k := by
    intro k hreader
    have hfits := h.reader
    unfold Pipeline.State.ReaderFits at hfits
    rw [hreader] at hfits
    obtain ⟨_,_,_,hheld,_⟩ := hfits
    rw [hh.slotHeld] at hheld
    cases hheld
  cases h.slots slot state hslot with
  | assigned item hmem =>
    obtain ⟨_,other,hother,hactive⟩ := h.assigned _ hmem
    rw [hslot] at hother
    obtain rfl := Option.some.inj hother
    cases state with
    | live => cases hlost
    | disarmed chunk => cases hlost
    | errorSet => cases hlost
    | finished chunk accepted => exact hactive
    | errored => exact hactive
    | senderDropped => exact hactive
    | dropped => exact hactive
  | settled item hitem hsettled =>
    obtain ⟨chunk,_,hwork⟩ := hh.work hitem
    rw [hwork] at hsettled
    cases state with
    | finished chunk accepted => cases hlost
    | errored =>
      obtain ⟨e,he⟩ := hsettled
      cases he
    | live => exact hsettled
    | disarmed chunk => exact hsettled
    | errorSet => exact hsettled
    | senderDropped => exact hsettled
    | dropped => exact hsettled
  | abandoning hbad => exact hreaderHeld hbad
  | abandoned hle hdropped =>
    have hlt := (List.getElem?_eq_some_iff.mp hslot).1
    have hbound := slots_length_le hh h hok
    omega

/-- A value in a slot is what becomes of its block. -/
theorem chunk_of_value (hh : Healthy plan start chunks final) (h : Wired plan start s) {slot : ℕ}
    {chunk : τ} (hvalue : (s.queue.slots.map SlotState.value)[slot]?=some (some chunk)) :
    chunks[slot]?=some chunk := by
  obtain ⟨item,hitem,hwork⟩ := settled_value h hvalue
  obtain ⟨other,hother,hwork'⟩ := hh.work hitem
  rw [hwork] at hwork'
  obtain rfl := Except.ok.inj hwork'
  exact hother

/-- What the writer has seen are the first results. -/
theorem seen_eq_take (hh : Healthy plan start chunks final) (h : Wired plan start s) :
    s.queue.seen=chunks.take s.queue.seen.length := by
  refine List.ext_getElem? (fun slot => ?_)
  by_cases hlt : slot<s.queue.seen.length
  · have hvalue : (s.queue.slots.map SlotState.value)[slot]?=some (some s.queue.seen[slot]) := by
      have hget : ((s.queue.slots.map SlotState.value).take s.queue.seen.length)[slot]?=
          (s.queue.seen.map some)[slot]? := by rw [h.agrees.seen]
      rw [List.getElem?_take_of_lt hlt,List.getElem?_map,List.getElem?_map,
        List.getElem?_eq_getElem hlt] at hget
      rw [List.getElem?_map]
      exact hget
    rw [List.getElem?_take_of_lt hlt,chunk_of_value hh h hvalue,List.getElem?_eq_getElem hlt]
  · have hshort : (chunks.take s.queue.seen.length).length≤ slot :=
      (List.length_take_le _ _).trans (Nat.not_lt.mp hlt)
    rw [List.getElem?_eq_none (Nat.not_lt.mp hlt),List.getElem?_eq_none hshort]

/-- The writer's next result can be consumed. -/
theorem consume_ok (hh : Healthy plan start chunks final) (h : Wired plan start s) {chunk : τ}
    (hr : s.queue.receiver=.applying chunk) : ∃ sink, plan.consume chunk s.sink=.ok () sink := by
  have hp := h.agrees.positioned
  unfold SeqQueue.State.Positioned at hp
  rw [hr] at hp
  have hchunk := chunk_of_value hh h hp.1
  have hconsumed := h.consumed (fun e he => (by rw [hr] at he; cases he))
  have hlt := (List.getElem?_eq_some_iff.mp hchunk).1
  have hrest : chunks.drop s.queue.seen.length=
      chunk::chunks.drop (s.queue.seen.length+1) := by
    rw [List.drop_eq_getElem_cons hlt,(List.getElem?_eq_some_iff.mp hchunk).2]
  have hsplit : chunks=s.queue.seen++chunk::chunks.drop (s.queue.seen.length+1) := by
    have hjoin := List.take_append_drop s.queue.seen.length chunks
    rw [←seen_eq_take hh h,hrest] at hjoin
    exact hjoin.symm
  have hall := hh.consumes
  rw [hsplit] at hall
  obtain ⟨_,sink,hfirst,_⟩ := bind_ok_iff.mp (consumeAll_append hconsumed hall)
  exact ⟨sink,hfirst⟩

/-- A step of a thread on its slot keeps the queue on its way to success. -/
theorem Fine.slotStep (hh : Healthy plan start chunks final) (h : Wired plan start s)
    (hf : Fine s.queue) {job : ℕ×ι} {queue : SeqQueue.State τ Fault} (hjob : job∈s.assigned)
    (hstep : plan.slotStep s.queue job.1 job.2=some queue) : Fine queue := by
  obtain ⟨hitem,state,hslot,hactive⟩ := h.assigned job hjob
  obtain ⟨chunk,_,hwork⟩ := hh.work hitem
  obtain ⟨_,next,effect,_,hid,_,hslotStep,_⟩ := slotStep_active hslot hactive
  rw [hslotStep] at hstep
  obtain rfl := Option.some.inj hstep
  rw [hid chunk hwork]
  exact ⟨hf.noError,hf.atEnd,hf.waiting,hf.recorded⟩

/-- A step of the reader keeps the queue on its way to success. -/
theorem fine_reader (hh : Healthy plan start chunks final) (h : Wired plan start s)
    (hf : Fine s.queue) (hstep : plan.readerStep s=some t) : Fine t.queue := by
  have hfits := h.reader
  unfold Pipeline.State.ReaderFits at hfits
  unfold Plan.readerStep at hstep
  have hnotGone : ∀ {result : Option (Except Fault Unit)}, s.queue.sender=.live →
      s.queue.sender≠.gone result := by
    intro result hlive hgone
    rw [hlive] at hgone
    cases hgone
  cases hreader : s.reader with
  | preparing rest =>
    rw [hreader] at hstep hfits
    dsimp only at hstep
    cases hqueue : plan.queueStep s.queue .prepareSend with
    | none => rw [hqueue] at hstep; cases hstep
    | some queue =>
      rw [hqueue] at hstep
      dsimp only at hstep
      obtain ⟨hlive,⟨hd,_⟩|⟨hopen,rfl⟩⟩ := step_prepareSend hqueue
      · obtain ⟨e,he⟩ := h.failed_of_disconnected hlive hd
        exact (hf.noError e he).elim
      · rw [hopen,if_neg Bool.false_ne_true] at hstep
        obtain rfl := Option.some.inj hstep
        refine ⟨hf.noError,fun hend => ?_,hf.waiting,hf.recorded⟩
        obtain ⟨_,result,hgone⟩ := hf.atEnd hend
        exact (hnotGone hlive hgone).elim
  | submitting slot item rest =>
    rw [hreader] at hstep
    dsimp only at hstep
    split at hstep
    · obtain rfl := Option.some.inj hstep
      exact hf
    · cases hstep
  | working slot item rest =>
    rw [hreader] at hstep
    dsimp only at hstep
    have hmem : (slot,item)∈s.assigned := by
      unfold Pipeline.State.assigned Pipeline.State.inHand
      rw [hreader]
      exact List.mem_cons_self
    cases hslot : plan.slotStep s.queue slot item with
    | none => rw [hslot] at hstep; cases hstep
    | some queue =>
      rw [hslot] at hstep
      obtain rfl := Option.some.inj hstep
      exact hf.slotStep hh h hmem hslot
  | abandoning slot =>
    rw [hreader] at hfits
    obtain ⟨_,_,_,hheld,_⟩ := hfits
    rw [hh.slotHeld] at hheld
    cases hheld
  | finishing result =>
    rw [hreader] at hstep hfits
    obtain ⟨queue,hqueue,rfl⟩ := Option.map_eq_some_iff.mp hstep
    obtain ⟨hlive,rfl⟩ := step_finishSender hqueue
    rcases hfits.2 with ⟨e,he⟩|⟨rfl,_⟩
    · exact (hf.noError e he).elim
    · refine ⟨hf.noError,fun hend => ?_,nofun,fun _ => Or.inl ?_⟩
      · obtain ⟨_,result,hgone⟩ := hf.atEnd hend
        exact (hnotGone hlive hgone).elim
      · dsimp only
        rw [hh.ending,hf.waiting hlive]
        rfl
  | recorded =>
    rw [hreader] at hstep hfits
    obtain ⟨queue,hqueue,rfl⟩ := Option.map_eq_some_iff.mp hstep
    obtain ⟨next,hnext,rfl⟩ := Option.map_eq_some_iff.mp hqueue
    obtain ⟨result,hsender,_⟩ := hfits
    rw [hsender] at hnext
    obtain rfl := Option.some.inj hnext
    refine ⟨hf.noError,fun hend => ⟨(hf.atEnd hend).1,_,rfl⟩,nofun,fun _ => hf.recorded ?_⟩
    rw [hsender]
    nofun
  | returned =>
    rw [hreader] at hstep
    cases hstep

/-- A step of the writer keeps the queue on its way to success. -/
theorem fine_writer (hh : Healthy plan start chunks final) (h : Wired plan start s)
    (hf : Fine s.queue) (hstep : plan.writerStep s=some t) : Fine t.queue := by
  obtain ⟨e,sink,queue,hevent,hqueue,rfl⟩ := writerStep_cases hstep
  have hcell : s.queue.sender≠.live → s.queue.cell=some (.ok ()) := by
    intro hgone
    rcases hf.recorded hgone with hcell|⟨result,hr⟩
    · exact hcell
    · rw [hr] at hevent
      cases hevent
  obtain ⟨hreceiver,_,hcases⟩ := writerEvent_cases hevent
  dsimp only
  cases e with
  | prepareSend => cases hreceiver
  | finishSender result => cases hreceiver
  | dropSender => cases hreceiver
  | slot index action => cases hreceiver
  | recvChannel =>
    rcases step_recvChannel hqueue with
      ⟨_,⟨_,_,_,rfl⟩|⟨hchannel,hgone,rfl⟩⟩|⟨hr,⟨hchannel,rfl⟩|⟨_,_,rfl⟩⟩
    · exact ⟨nofun,nofun,hf.waiting,fun hgone => Or.inl (hcell hgone)⟩
    · exact ⟨nofun,fun _ => ⟨hchannel,hgone⟩,hf.waiting,fun hgone => Or.inl (hcell hgone)⟩
    · exact (hchannel (hf.atEnd hr).1).elim
    · exact ⟨nofun,nofun,hf.waiting,fun hgone => Or.inl (hcell hgone)⟩
  | recvItem =>
    obtain ⟨index,state,_,hslot,⟨item,_,rfl⟩|⟨hlost,rfl⟩⟩ := step_recvItem hqueue
    · exact ⟨nofun,nofun,hf.waiting,fun hgone => Or.inl (hcell hgone)⟩
    · exact (not_lost hh h hf.noError hslot hlost).elim
  | callback result =>
    obtain ⟨item,hr,⟨_,rfl⟩|⟨fault,rfl,rfl⟩⟩ := step_callback hqueue
    · exact ⟨nofun,nofun,hf.waiting,fun hgone => Or.inl (hcell hgone)⟩
    · obtain ⟨after,hok⟩ := consume_ok hh h hr
      rw [hr] at hevent
      unfold Plan.writerEvent at hevent
      dsimp only at hevent
      rw [hok] at hevent
      cases hevent
  | takeResult =>
    obtain ⟨hr,⟨_,rfl⟩|⟨fault,herror,_⟩⟩ := step_takeResult hqueue
    · exact ⟨nofun,nofun,fun _ => rfl,fun _ => Or.inr ⟨_,rfl⟩⟩
    · have hp := h.agrees.positioned
      unfold SeqQueue.State.Positioned at hp
      rw [hr] at hp
      obtain ⟨⟨result,hgone⟩,_⟩ := hp
      rw [hcell (by rw [hgone]; nofun)] at herror
      cases herror

/-- Every step keeps the queue on its way to success. -/
theorem fine_step (hh : Healthy plan start chunks final) {e : Pipeline.Event} (h : Wired plan start s)
    (hf : Fine s.queue) (hstep : Pipeline.step plan s e=some t) : Fine t.queue := by
  cases e with
  | reader => exact fine_reader hh h hf hstep
  | take =>
    unfold Pipeline.step at hstep
    dsimp only at hstep
    split at hstep
    · cases hstep
    · split at hstep
      · obtain rfl := Option.some.inj hstep
        exact hf
      · cases hstep
  | work slot =>
    obtain ⟨item,queue,hheld,hslot,rfl⟩ := workStep_cases hstep
    exact hf.slotStep hh h (List.mem_append_right _ (List.mem_append_right _ hheld)) hslot
  | writer => exact fine_writer hh h hf hstep

/-- The invariant of a run in which everything succeeds. -/
def OnTrack (plan : Plan ι τ σ) (start : σ) (s : Pipeline.State ι τ σ) : Prop :=
  Wired plan start s ∧ Fine s.queue

/-- A run in which everything succeeds stays on track. -/
theorem onTrack_of_run (hh : Healthy plan start chunks final)
    {trace : List (Pipeline.State ι τ σ×Pipeline.Event)}
    (run : Run (Pipeline.step plan) (Pipeline.initial plan start) trace s) : OnTrack plan start s := by
  have hstart : OnTrack plan start (Pipeline.initial plan start) :=
    ⟨wired_initial plan start,nofun,nofun,fun _ => rfl,fun hlive => (hlive rfl).elim⟩
  refine run.invariant hstart (fun h hstep => ?_)
  exact ⟨wired_step hh.calm h.1 hstep,fine_step hh h.1 h.2 hstep⟩

/-- What every run does when everything succeeds on its own. -/
structure Completes (plan : Plan ι τ σ) (start final : σ) : Prop where
  /-- Runs are bounded. -/
  bounded : ∀ {trace : List (Pipeline.State ι τ σ×Pipeline.Event)} {s : Pipeline.State ι τ σ},
    Run (Pipeline.step plan) (Pipeline.initial plan start) trace s →
      trace.length≤8*plan.reading.items.length+13
  /-- When no thread can move any more, all are done. -/
  ends : ∀ {trace : List (Pipeline.State ι τ σ×Pipeline.Event)} {s : Pipeline.State ι τ σ},
    Run (Pipeline.step plan) (Pipeline.initial plan start) trace s →
      (∀ e, Pipeline.step plan s e=none) → Ended s
  /-- The writer's part returns success, with everything consumed. -/
  succeeds : ∀ {trace : List (Pipeline.State ι τ σ×Pipeline.Event)} {s : Pipeline.State ι τ σ}
    {result : Except Fault Unit},
    Run (Pipeline.step plan) (Pipeline.initial plan start) trace s →
      s.queue.receiver=.done result → result=.ok () ∧ s.sink=final

/-- If reading, working and consuming succeed on their own, every run completes. -/
theorem Healthy.completes (hh : Healthy plan start chunks final) (hthreads : 0<plan.threads) :
    Completes plan start final := by
  refine ⟨run_length_le,fun run hstuck => ?_,fun {_ _ result} run hr => ?_⟩
  · rcases progress (wired_of_run hh.calm run) hthreads with hended|⟨e,t,hstep⟩
    · exact hended
    · rw [hstuck e] at hstep
      cases hstep
  · obtain ⟨hwired,hfine⟩ := onTrack_of_run hh run
    cases result with
    | error e => exact (hfine.noError e hr).elim
    | ok _ =>
      obtain ⟨_,hseen,hconsumed⟩ := wired_ok hwired hr
      rw [hh.works] at hseen
      have hinjective : Function.Injective (Except.ok : τ→Except Fault τ) :=
        fun _ _ => Except.ok.inj
      rw [←List.map_injective_iff.mpr hinjective hseen,hh.consumes] at hconsumed
      cases hconsumed
      exact ⟨rfl,rfl⟩

end Healthy

end Applesauce.PipelineRuns
