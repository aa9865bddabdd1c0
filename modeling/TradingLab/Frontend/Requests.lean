import Mathlib.Data.List.Range
import TradingLab.Accounting.Closing
import TradingLab.Engine.Booking
import TradingLab.Frontend.HostStrategy

/-! What a call on the host puts into the strategy's inbox. -/

open ptl ptl.oms ptl.portfolio ptl.market ptl.accounting ptl.engine ptl.risk ptl.execution
open ptl.storage (IFileSystem)

namespace ptl_host

variable {R F : Type}

/-- From one state to another these requests were queued, and nothing else was
done. -/
structure Impl.Queues (w : Impl R F) (requests : List Request) (w' : Impl R F) : Prop where
  session_eq : w'.session = w.session
  instruments_eq : w'.instruments = w.instruments
  strategy_eq : w'.strategy = { w.strategy with
    inbox := w.strategy.inbox ++ requests
    requested := w.strategy.requested + requests.countP fun request => ¬ request.is_cancel }
  next_eq : w'.next_request_id = w.next_request_id + requests.length
  ids_eq : requests.map Request.request_id = List.range' w.next_request_id requests.length

namespace Impl.Queues

variable {w w' w'' : Impl R F} {requests requests' : List Request}

theorem nil (w : Impl R F) : w.Queues [] w :=
  ⟨rfl, rfl, by simp, rfl, rfl⟩

theorem one (w : Impl R F) (request : Request) :
    w.Queues [{ request with request_id := w.next_request_id }] (w.enqueue request) := by
  refine ⟨rfl, rfl, ?_, rfl, rfl⟩
  unfold Impl.enqueue HostStrategy.enqueue
  cases request.is_cancel <;> rfl

theorem append (hfirst : w.Queues requests w') (hsecond : w'.Queues requests' w'') :
    w.Queues (requests ++ requests') w'' where
  session_eq := hsecond.session_eq.trans hfirst.session_eq
  instruments_eq := hsecond.instruments_eq.trans hfirst.instruments_eq
  strategy_eq := by
    rw [hsecond.strategy_eq, hfirst.strategy_eq, List.countP_append, List.append_assoc, Nat.add_assoc]
  next_eq := by
    rw [hsecond.next_eq, hfirst.next_eq, List.length_append, Nat.add_assoc]
  ids_eq := by
    rw [List.map_append, hfirst.ids_eq, hsecond.ids_eq, hfirst.next_eq, List.length_append]
    exact List.range'_append_1

/-- Requests are numbered from the next id on. -/
theorem id_bounds (hqueues : w.Queues requests w') {request : Request} (hmem : request ∈ requests) :
    w.next_request_id ≤ request.request_id ∧ request.request_id < w'.next_request_id := by
  have hid : request.request_id ∈ List.range' w.next_request_id requests.length := by
    rw [← hqueues.ids_eq]
    exact List.mem_map_of_mem hmem
  rw [List.mem_range'_1] at hid
  rw [hqueues.next_eq]
  exact hid

theorem ids_nodup (hqueues : w.Queues requests w') : (requests.map Request.request_id).Nodup := by
  rw [hqueues.ids_eq]
  exact List.nodup_range'

end Impl.Queues

/-- A call that queues requests of one kind. -/
def Impl.QueuesOnly (P : Request → Prop) (w w' : Impl R F) : Prop :=
  ∃ requests, w.Queues requests w' ∧ ∀ request ∈ requests, P request

namespace Impl.QueuesOnly

variable {P P' : Request → Prop} {w w' w'' : Impl R F}

theorem refl (w : Impl R F) : w.QueuesOnly P w :=
  ⟨[], .nil w, fun _ hmem => absurd hmem List.not_mem_nil⟩

theorem trans (hfirst : w.QueuesOnly P w') (hsecond : w'.QueuesOnly P w'') : w.QueuesOnly P w'' := by
  obtain ⟨requests, hqueues, hall⟩ := hfirst
  obtain ⟨requests', hqueues', hall'⟩ := hsecond
  refine ⟨requests ++ requests', hqueues.append hqueues', fun request hmem => ?_⟩
  rcases List.mem_append.mp hmem with hmem | hmem
  · exact hall request hmem
  · exact hall' request hmem

theorem weaken (honly : w.QueuesOnly P w') (hweaker : ∀ request, P request → P' request) :
    w.QueuesOnly P' w' := by
  obtain ⟨requests, hqueues, hall⟩ := honly
  exact ⟨requests, hqueues, fun request hmem => hweaker request (hall request hmem)⟩

theorem session_eq (honly : w.QueuesOnly P w') : w'.session = w.session := by
  obtain ⟨_, hqueues, _⟩ := honly
  exact hqueues.session_eq

theorem instruments_eq (honly : w.QueuesOnly P w') : w'.instruments = w.instruments := by
  obtain ⟨_, hqueues, _⟩ := honly
  exact hqueues.instruments_eq

end Impl.QueuesOnly

/-- What each turn of a loop queues, the loop queues. A turn may rely on the
session and the instruments that the loop began with. -/
theorem Impl.enqueue_each_only {A B : Type} {queue : Impl R F → A → Result B × Impl R F} {P : Request → Prop}
    {w : Impl R F} {xs : List A}
    (hturn : ∀ a ∈ xs, ∀ w' : Impl R F, w'.session = w.session → w'.instruments = w.instruments →
      w'.QueuesOnly P (queue w' a).2) {w' : Impl R F} (hsession : w'.session = w.session)
    (hinstruments : w'.instruments = w.instruments) :
    w'.QueuesOnly P (Impl.enqueue_each queue xs w').2 := by
  induction xs generalizing w' with
  | nil => exact .refl w'
  | cons a rest ih =>
    have hfirst := hturn a List.mem_cons_self w' hsession hinstruments
    have hrest := ih (fun b hb => hturn b (List.mem_cons_of_mem _ hb))
      (hfirst.session_eq.trans hsession) (hfirst.instruments_eq.trans hinstruments)
    rw [Impl.enqueue_each]
    generalize queue w' a = answer at hfirst hrest
    obtain ⟨result, w₁⟩ := answer
    cases result with
    | error err => exact hfirst.trans hrest
    | ok queued => exact hfirst.trans hrest

theorem Impl.enqueue_cancel_only (w : Impl R F) (order_id : OrderId) :
    w.QueuesOnly (fun request => request.is_cancel = true) (w.enqueue_cancel order_id).2 := by
  unfold Impl.enqueue_cancel
  split
  · exact .refl w
  · exact ⟨_, .one w _, by simp⟩

theorem Impl.enqueue_cancel_all_only (w : Impl R F) :
    w.QueuesOnly (fun request => request.is_cancel = true) w.enqueue_cancel_all.2 :=
  Impl.enqueue_each_only (w := w) (fun order_id _ w' _ _ => w'.enqueue_cancel_only order_id) rfl rfl

/-- What an order is queued as. -/
theorem Impl.check_order_ok {w : Impl R F} {request : ManualOrder} {queued : Request}
    (hok : w.check_order request = .ok queued) :
    w.instruments.find request.symbol = some queued.instrument ∧ queued.is_cancel = false ∧
      queued.side = (if 0 ≤ request.side then .Buy else .Sell) ∧ queued.quantity = request.quantity := by
  unfold Impl.check_order at hok
  cases hfind : w.instruments.find request.symbol with
  | none => simp [hfind] at hok
  | some instrument =>
    rw [hfind] at hok
    dsimp only at hok
    split at hok
    · cases hok
    · split at hok
      · cases hok
      · split at hok
        · cases hok
        · split at hok
          · cases hok
          · split at hok
            · cases hok
            · cases hok
              exact ⟨rfl, rfl, rfl, rfl⟩

theorem Impl.enqueue_order_only (w : Impl R F) (request : ManualOrder) :
    w.QueuesOnly (fun queued => w.instruments.find request.symbol = some queued.instrument ∧
      queued.is_cancel = false ∧ queued.side = (if 0 ≤ request.side then .Buy else .Sell) ∧
        queued.quantity = request.quantity) (w.enqueue_order request).2 := by
  unfold Impl.enqueue_order
  cases hcheck : w.check_order request with
  | error err => exact .refl w
  | ok queued =>
    refine ⟨_, .one w queued, fun numbered hmem => ?_⟩
    have hqueued := Impl.check_order_ok hcheck
    rw [List.mem_singleton.mp hmem]
    exact hqueued

/-! ### Flattening -/

/-- The order that closes what is held of an instrument. -/
structure Request.ClosesHeld (request : Request) (held : Qty) : Prop where
  order : request.is_cancel = false
  held_ne : held ≠ 0
  side_eq : request.side = closingSide held
  quantity_eq : request.quantity = |held|

/-- A name from the table stands for the id it was made from. -/
theorem hostInstruments_find {id found : InstrumentId}
    (hfind : hostInstruments.find (hostInstruments.symbol id) = some found) : found = id := by
  by_cases hzero : id = 0
  · subst hzero
    have hspy : hostInstruments.find (hostInstruments.symbol 0) = some 0 := by decide
    rw [hspy] at hfind
    cases hfind
    rfl
  · have hout : hostInstruments.by_id[id.toNat]? = none := by
      have hpos : id.toNat ≠ 0 := fun heq => hzero (UInt32.toNat_inj.mp heq)
      refine List.getElem?_eq_none ?_
      have hlength : hostInstruments.by_id.length = 1 := rfl
      omega
    rw [InstrumentTable.symbol, hout] at hfind
    have hnone : hostInstruments.find "" = none := by decide
    cases hnone.symm.trans hfind

/-- A closing order is for the whole of a position, the other way. -/
theorem Impl.closing_only {w : Impl R F} (hinstruments : w.instruments = hostInstruments)
    {key : InstrumentId} {position : Position} (hopen : position.quantity ≠ 0) :
    w.QueuesOnly (fun request => request.instrument = key ∧ request.ClosesHeld position.quantity)
      (w.enqueue_order (w.closing key position)).2 := by
  refine (w.enqueue_order_only (w.closing key position)).weaken fun request hqueued => ?_
  obtain ⟨hfind, hcancel, hside, hquantity⟩ := hqueued
  rw [hinstruments] at hfind
  unfold Impl.closing at hfind hside hquantity
  rw [hinstruments] at hfind
  refine ⟨hostInstruments_find hfind, hcancel, hopen, ?_, hquantity⟩
  rw [hside, closingSide]
  dsimp only
  split <;> rfl

/-- A flatten queues cancels, and for what is held of an instrument the order that
closes it. -/
theorem Impl.enqueue_flatten_only {w : Impl R F} (hinstruments : w.instruments = hostInstruments) :
    w.QueuesOnly (fun request => request.is_cancel = false →
      request.ClosesHeld (w.session.engine.pf.settledQuantity request.instrument)) w.enqueue_flatten.2 := by
  have hcancels := w.enqueue_cancel_all_only
  refine (hcancels.weaken fun request hcancel horder => ?_).trans ?_
  · rw [hcancel] at horder
    cases horder
  · refine Impl.enqueue_each_only (w := w.enqueue_cancel_all.2) ?_ rfl rfl
    rintro ⟨key, position⟩ hentry w' hsession htable
    obtain ⟨hentry, hopen⟩ := List.mem_filter.mp hentry
    have hquantity : position.quantity ≠ 0 := by simpa [Position.is_flat] using hopen
    have hkept := htable.trans (hcancels.instruments_eq.trans hinstruments)
    refine (Impl.closing_only hkept hquantity).weaken fun request hcloses _ => ?_
    have hheld : w.session.engine.pf.settledQuantity key = position.quantity := by
      rw [hcancels.session_eq] at hentry
      have hsome := Std.TreeMap.mem_toList_iff_getElem?_eq_some.mp hentry
      rw [Portfolio.settledQuantity, Portfolio.position, hsome, Option.elim_some]
    rw [hcloses.1, hheld]
    exact hcloses.2

end ptl_host

/-! The orders with which a flatten closes positions, from the request to the last
fill, among whatever else is asked for and fills meanwhile. -/

namespace ptl_host

variable {R F : Type}

/-! ### The session under its callers -/

/-- A closing order that a flatten queued: its request, what was held, how many
fills had been booked, and how many orders had been asked for when the flatten
was through. -/
structure Flattening where
  request : Request
  held : Qty
  since : Nat
  requested : Nat
  deriving DecidableEq, Repr

/-- A running session, and the closing orders of its flattens. -/
structure Watched (R F : Type) where
  impl : Impl R F
  flattenings : List Flattening := []

inductive HostCall where
  | submit_order (request : ManualOrder)
  | cancel_order (order_id : OrderId)
  | cancel_all
  | flatten
  | set_halted (halted : Bool)
  | event
  deriving DecidableEq, Repr

/-- The closing orders among what a flatten added to the inbox. -/
def Impl.flattened (w w' : Impl R F) : List Flattening :=
  ((w'.strategy.inbox.drop w.strategy.inbox.length).filter fun request => ¬ request.is_cancel).map
    fun request => {
      request
      held := w.session.engine.pf.settledQuantity request.instrument
      since := w.strategy.booked.length
      requested := w'.strategy.requested }

variable (fmt : DoubleFormat Rat) (fs : IFileSystem F)

/-- One event of the loop of `step`. -/
def Impl.event (w : Impl R F) : Option (Impl R F) :=
  match paper.PaperSession.next fmt fs hostStrategy replay (w.session, w.strategy) with
  | .ok (some (session, strategy)) => some { w with session, strategy }
  | _ => none

/-- One call between two events, or one event. An event that fails ends the
session. -/
def Watched.step (s : Watched R F) : HostCall → Option (Watched R F)
  | .submit_order request => some { s with impl := (s.impl.enqueue_order request).2 }
  | .cancel_order order_id => some { s with impl := (s.impl.enqueue_cancel order_id).2 }
  | .cancel_all => some { s with impl := s.impl.enqueue_cancel_all.2 }
  | .flatten =>
    let impl := s.impl.enqueue_flatten.2
    some { impl, flattenings := s.flattenings ++ s.impl.flattened impl }
  | .set_halted halted => some { s with impl := s.impl.set_strategy_halted halted }
  | .event => (s.impl.event fmt fs).map fun impl => { s with impl }

/-- The data of a session are bars and the events that open and close it. -/
def hosted : MarketEvent → Bool
  | .bar _ | .session _ => true
  | _ => false

/-- What `start` leaves: an engine just begun over new collaborators, and a replay
of the session's data. -/
structure Watched.Initial (s : Watched R F) : Prop where
  engine_new : ∃ e : Engine R, e.Fresh ∧ s.impl.session.engine = e.begun
  data : ∀ ev ∈ s.impl.session.source.events, hosted ev = true
  strategy_eq : s.impl.strategy = {}
  instruments_eq : s.impl.instruments = hostInstruments
  flattenings_eq : s.flattenings = []

/-- Every interleaving of requests and events. -/
def flattenMachine (R : Type) : Machine (Watched R F) HostCall where
  Init := Watched.Initial
  step := Watched.step fmt fs

/-! ### What a flatten is for -/

/-- The order of this id is the one that the request became. -/
def Flattening.Closes (c : Flattening) (h : HostStrategy) (id : OrderId) : Prop :=
  (c.request.request_id, id) ∈ h.placed

/-- The fills booked since the flatten, each with the position right after it. -/
def Flattening.later (c : Flattening) (h : HostStrategy) : List (Fill × Qty) := h.booked.drop c.since

/-- No fill of the closing order leaves a position on the other side. When it has
filled all of its quantity, and no order was asked for after the flatten, the
position is flat. -/
structure Flattening.Kept (c : Flattening) (e : Engine R) (h : HostStrategy) : Prop where
  never_reversed : ∀ b ∈ c.later h, c.Closes h b.1.order_id → 0 ≤ c.held * b.2
  flat : ∀ id, c.Closes h id → c.request.quantity ≤ e.filledOf id → h.requested = c.requested →
    e.pf.settledQuantity c.request.instrument = 0

def Watched.Flattens (s : Watched R F) : Prop :=
  ∀ c ∈ s.flattenings, c.Kept s.impl.session.engine s.impl.strategy

/-- Another order's fill that takes from the position to be closed. -/
def Flattening.Opposes (c : Flattening) (h : HostStrategy) (f : Fill) : Prop :=
  f.instrument = c.request.instrument ∧ f.side = c.request.side ∧ ¬ c.Closes h f.order_id

/-- Before each fill of the closing order, no other order has taken from the
position; and when it has filled, no other order has filled at all unless one was
asked for after the flatten. -/
def Flattening.Alone (c : Flattening) (h : HostStrategy) (fills : List Fill) : Prop :=
  (fills.Pairwise fun g f => c.Closes h f.order_id → ¬ c.Opposes h g) ∧
    (h.requested = c.requested →
      (∃ x ∈ h.placed, x.1 = c.request.request_id ∧ c.request.quantity ≤ filledBy fills x.2) →
        ∀ f ∈ fills, f.instrument = c.request.instrument → c.Closes h f.order_id)

/-- The fills that the venue makes at the next event. -/
def Impl.upcoming_fills (w : Impl R F) : List Fill :=
  match w.session.source.next_event w.session.engine.clock with
  | .ok (some (ev, _, now)) => w.session.engine.fillsOf now ev
  | _ => []

/-- At an event every closing order is alone, in the fills since its flatten and
those to come. -/
def Watched.ClosesAlone (s : Watched R F) : HostCall → Prop
  | .event => ∀ c ∈ s.flattenings,
      c.Alone s.impl.strategy ((c.later s.impl.strategy).map Prod.fst ++ s.impl.upcoming_fills)
  | _ => True

end ptl_host
