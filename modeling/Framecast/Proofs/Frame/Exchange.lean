import Framecast.Frame.Mailbox
import Framecast.Proofs.Canvas.Export
import Mathlib.Logic.Function.Basic
import Mathlib.Logic.Relation

/-!
# Many threads at one mailbox

Any number of threads ask the mailbox for something, and each request is served at one moment, when it does not have to
wait. `Exchange.Step` is what can happen next, so a run of steps is any order in which the moments of the threads can
follow each other. What was staged, taken and handed back is read off the receipts of the requests that were served.
`Mailbox.Agrees` is the invariant that ties it to the mailbox.
-/

namespace Framecast

namespace Exchange

inductive Request where
  | publish (c : Canvas)
  | wait
  | take
  /-- Hand back the taken frame of a number, counted from zero. Whoever held it may have changed it. -/
  | finish (k : Nat) (f : Frame)
  | close

inductive Receipt where
  | published (c : Canvas) (accepted : Bool)
  | waited
  | taken (f : Option Frame)
  | finished (k : Nat)
  | closed

/-- The request has to wait now. Who takes a frame waits for a while only, and then goes without. -/
def Request.waits (m : Mailbox) : Request → Bool
  | publish _ => m.blocked
  | wait => m.blocked
  | _ => false

def Request.serve (m : Mailbox) : Request → Receipt × Mailbox
  | publish c => (.published c (m.publish c).1, (m.publish c).2)
  | wait => (.waited, m)
  | take => (.taken m.take.1, m.take.2)
  | finish k f => (.finished k, m.finish f)
  | close => (.closed, m.close)

structure Tally where
  /-- The canvases of which a copy was staged. -/
  accepted : List Canvas
  taken : List Frame
  finished : List Nat
  closed : Bool

namespace Tally

def empty : Tally := ⟨[], [], [], false⟩

def add (t : Tally) : Receipt → Tally
  | .published c true => { t with accepted := t.accepted ++ [c] }
  | .taken (some f) => { t with taken := t.taken ++ [f] }
  | .finished k => { t with finished := t.finished ++ [k] }
  | .closed => { t with closed := true }
  | _ => t

/-- The numbers of the frames that were taken and not handed back. -/
def unfinished (t : Tally) : List Nat := (List.range t.taken.length).filter (· ∉ t.finished)

end Tally

end Exchange

/-- A mailbox, the requests that the threads are about to have served, and what came of those that were served. -/
structure Exchange (Thread : Type) where
  mailbox : Mailbox
  requests : Thread → Option Exchange.Request
  receipts : List Exchange.Receipt

namespace Exchange

variable {Thread : Type}

def start : Exchange Thread := ⟨.empty, fun _ => none, []⟩

def tally (s : Exchange Thread) : Tally := s.receipts.foldl Tally.add .empty

/-- A frame is handed back by one thread, once, and only after it was taken. -/
def Allows (s : Exchange Thread) : Request → Prop
  | .finish k _ => k ∈ s.tally.unfinished ∧ ∀ i f, s.requests i ≠ some (.finish k f)
  | _ => True

variable [DecidableEq Thread]

def ask (s : Exchange Thread) (i : Thread) (r : Request) : Exchange Thread :=
  { s with requests := Function.update s.requests i (some r) }

def serve (s : Exchange Thread) (i : Thread) (r : Request) : Exchange Thread where
  mailbox := (r.serve s.mailbox).2
  requests := Function.update s.requests i none
  receipts := s.receipts ++ [(r.serve s.mailbox).1]

inductive Step : Exchange Thread → Exchange Thread → Prop
  | ask {s : Exchange Thread} {i : Thread} {r : Request} (hresting : s.requests i = none) (hallowed : s.Allows r) :
      Step s (s.ask i r)
  | serve {s : Exchange Thread} {i : Thread} {r : Request} (hasked : s.requests i = some r)
      (hfree : r.waits s.mailbox = false) : Step s (s.serve i r)

def Steps : Exchange Thread → Exchange Thread → Prop := Relation.ReflTransGen Step

end Exchange

/-! ## The mailbox and the receipts -/

open Exchange

namespace Exchange.Tally

variable {t : Tally}

theorem mem_unfinished_iff {k : Nat} : k ∈ t.unfinished ↔ k < t.taken.length ∧ k ∉ t.finished := by
  simp [unfinished]

theorem unfinished_taken (hknown : ∀ k ∈ t.finished, k < t.taken.length) (f : Frame) :
    (t.add (.taken (some f))).unfinished = t.unfinished ++ [t.taken.length] := by
  have hnew : t.taken.length ∉ t.finished := fun hmem => Nat.lt_irrefl _ (hknown _ hmem)
  have hlength : (t.add (.taken (some f))).taken.length = t.taken.length + 1 := List.length_append
  have hlast : [t.taken.length].filter (· ∉ t.finished) = [t.taken.length] :=
    List.filter_eq_self.mpr (by simpa using hnew)
  rw [unfinished, hlength, List.range_succ, List.filter_append]
  exact congrArg (t.unfinished ++ ·) hlast

theorem unfinished_finished (k : Nat) :
    (t.add (.finished k)).unfinished = t.unfinished.filter (· ≠ k) := by
  simp only [unfinished, add, List.filter_filter]
  refine List.filter_congr fun j _ => ?_
  simp [and_comm]

/-- A frame stays unfinished until that very frame is handed back. -/
theorem mem_unfinished_serve (hknown : ∀ k ∈ t.finished, k < t.taken.length) {k : Nat} {r : Request} (m : Mailbox)
    (hk : k ∈ t.unfinished) (hother : ∀ f, r ≠ .finish k f) : k ∈ (t.add (r.serve m).1).unfinished := by
  cases r with
  | publish c =>
      rw [Request.serve]
      cases (m.publish c).1 <;> exact hk
  | wait => exact hk
  | take =>
      rw [Request.serve]
      cases m.take.1 with
      | none => exact hk
      | some f => exact unfinished_taken hknown f ▸ List.mem_append_left _ hk
  | finish j f =>
      have hne : k ≠ j := fun heq => hother f (heq ▸ rfl)
      exact unfinished_finished j ▸ List.mem_filter.mpr ⟨hk, decide_eq_true hne⟩
  | close => exact hk

theorem closed_add (t : Tally) (r : Receipt) : (t.add r).closed = true ↔ t.closed = true ∨ .closed = r := by
  cases r with
  | published c accepted => cases accepted <;> simp [add]
  | taken f => cases f <;> simp [add]
  | _ => simp [add]

end Exchange.Tally

namespace Mailbox

variable {m : Mailbox} {t : Tally}

/-- How many frames stand in the mailbox or were taken and not handed back. -/
def underway (m : Mailbox) (t : Tally) : Nat := m.staged.toList.length + t.unfinished.length

structure Agrees (m : Mailbox) (t : Tally) : Prop where
  closed_eq : m.closed = t.closed
  published_eq : m.published = t.accepted.length
  kept : m.closed = false → t.taken ++ m.staged.toList = t.accepted.map Canvas.frame
  dropped : m.closed = true → m.staged = none ∧ m.ready = false
  inOrder : t.taken <+: t.accepted.map Canvas.frame
  nearlyAll : t.accepted.length ≤ t.taken.length + 1
  ready_iff : m.closed = false → (m.ready = true ↔ m.underway t = 1)
  single : m.closed = false → m.underway t ≤ 1
  known : ∀ k ∈ t.finished, k < t.taken.length

namespace Agrees

theorem empty : Mailbox.empty.Agrees .empty where
  closed_eq := rfl
  published_eq := rfl
  kept := fun _ => rfl
  dropped := nofun
  inOrder := List.prefix_refl _
  nearlyAll := Nat.zero_le _
  ready_iff := by decide
  single := by decide
  known := nofun

theorem eq_nil_of_free (h : m.Agrees t) (hopen : m.closed = false) (hfree : m.blocked = false) :
    m.staged = none ∧ t.unfinished = [] := by
  have hne : m.underway t ≠ 1 := fun hone => by
    have hready := (h.ready_iff hopen).mpr hone
    rw [ready_of_free hopen hfree] at hready
    cases hready
  have hsingle := h.single hopen
  rw [underway] at hne hsingle
  constructor
  · cases hstaged : m.staged with
    | none => rfl
    | some f =>
        rw [hstaged, Option.toList_some, List.length_singleton] at hne hsingle
        omega
  · exact List.length_eq_zero_iff.mp (by omega)

theorem publish (h : m.Agrees t) (hfree : m.blocked = false) (c : Canvas) :
    (m.publish c).2.Agrees (t.add (.published c (m.publish c).1)) := by
  cases hclosed : m.closed with
  | true =>
      rw [Mailbox.publish, if_pos hclosed]
      exact h
  | false =>
      obtain ⟨hstaged, hunfinished⟩ := h.eq_nil_of_free hclosed hfree
      have hkept := h.kept hclosed
      rw [hstaged, Option.toList_none, List.append_nil] at hkept
      have hone : Mailbox.underway
          { m with ready := true, staged := some c.frame, spare := ByteArray.empty, published := m.published + 1 }
          (t.add (.published c true)) = 1 := by
        simp only [underway, Option.toList_some, List.length_singleton]
        exact congrArg (1 + ·.length) hunfinished
      rw [publish_of_open hclosed]
      constructor
      case closed_eq => exact h.closed_eq
      case published_eq => simp [Tally.add, h.published_eq]
      case kept => simp [Tally.add, hkept]
      case dropped => simp [hclosed]
      case inOrder => simp [Tally.add, hkept]
      case nearlyAll => simp [Tally.add, hkept]
      case ready_iff => simp [hone]
      case single => simp [hone]
      case known => exact h.known

theorem take (h : m.Agrees t) : m.take.2.Agrees (t.add (.taken m.take.1)) := by
  obtain ⟨ready, staged, spare, closed, published⟩ := m
  cases closed with
  | true => exact h
  | false =>
      cases staged with
      | none => exact h
      | some f =>
          change Agrees ⟨ready, none, spare, false, published⟩ (t.add (.taken (some f)))
          have hkept : t.taken ++ [f] = t.accepted.map Canvas.frame := h.kept rfl
          have hsingle := h.single rfl
          have hready := h.ready_iff rfl
          -- The frame goes from the staged ones to the unfinished ones.
          have hmoved : Mailbox.underway ⟨ready, none, spare, false, published⟩ (t.add (.taken (some f))) =
              Mailbox.underway ⟨ready, some f, spare, false, published⟩ t := by
            simp only [underway, Tally.unfinished_taken h.known, List.length_append, List.length_singleton,
              Option.toList_none, Option.toList_some, List.length_nil]
            omega
          constructor
          case closed_eq => exact h.closed_eq
          case published_eq => exact h.published_eq
          case kept => exact fun _ => (List.append_nil _).trans hkept
          case dropped => nofun
          case inOrder => exact hkept ▸ List.prefix_refl _
          case nearlyAll =>
            have hlength := congrArg List.length hkept
            rw [List.length_map] at hlength
            exact hlength ▸ Nat.le_succ _
          case ready_iff => exact fun _ => hmoved ▸ hready
          case single => exact fun _ => hmoved ▸ hsingle
          case known => exact fun k hk => List.length_append ▸ Nat.lt_succ_of_lt (h.known k hk)

theorem finish (h : m.Agrees t) {k : Nat} (hk : k ∈ t.unfinished) (f : Frame) :
    (m.finish f).Agrees (t.add (.finished k)) := by
  -- In an open mailbox it was the only frame under way.
  have hnone (hopen : m.closed = false) : (m.finish f).underway (t.add (.finished k)) = 0 := by
    have hsingle := h.single hopen
    have hpositive : 0 < t.unfinished.length := List.length_pos_of_mem hk
    rw [underway] at hsingle
    have hstaged : m.staged.toList.length = 0 := by omega
    obtain ⟨j, hj⟩ := List.length_eq_one_iff.mp (by omega : t.unfinished.length = 1)
    rw [hj, List.mem_singleton] at hk
    subst hk
    rw [underway, Tally.unfinished_finished, hj]
    simpa [Mailbox.finish] using hstaged
  constructor
  case closed_eq => exact h.closed_eq
  case published_eq => exact h.published_eq
  case kept => exact h.kept
  case dropped => exact fun hclosed => ⟨(h.dropped hclosed).1, rfl⟩
  case inOrder => exact h.inOrder
  case nearlyAll => exact h.nearlyAll
  case ready_iff => exact fun hopen => iff_of_false Bool.false_ne_true (by rw [hnone hopen]; exact Nat.zero_ne_one)
  case single => exact fun hopen => hnone hopen ▸ Nat.zero_le 1
  case known =>
    intro j hj
    rcases List.mem_append.mp hj with hj | hj
    · exact h.known j hj
    · exact List.mem_singleton.mp hj ▸ (Tally.mem_unfinished_iff.mp hk).1

theorem close (h : m.Agrees t) : m.close.Agrees (t.add .closed) where
  closed_eq := rfl
  published_eq := h.published_eq
  kept := nofun
  dropped := fun _ => ⟨rfl, rfl⟩
  inOrder := h.inOrder
  nearlyAll := h.nearlyAll
  ready_iff := nofun
  single := nofun
  known := h.known

theorem serve (h : m.Agrees t) {r : Request} (hfree : r.waits m = false)
    (hfinish : ∀ k f, r = .finish k f → k ∈ t.unfinished) : (r.serve m).2.Agrees (t.add (r.serve m).1) := by
  cases r with
  | publish c => exact h.publish hfree c
  | wait => exact h
  | take => exact h.take
  | finish k f => exact h.finish (hfinish k f rfl) f
  | close => exact h.close

end Agrees

/-- A closed mailbox stays as it is, its spare buffer aside, and gives nothing. -/
theorem serve_of_closed (hclosed : m.closed = true) (t : Tally) (r : Request) :
    (r.serve m).2.closed = true ∧ (r.serve m).2.published = m.published ∧
      (t.add (r.serve m).1).accepted = t.accepted ∧ (t.add (r.serve m).1).taken = t.taken := by
  cases r with
  | publish c =>
      rw [Request.serve, publish, if_pos hclosed]
      exact ⟨hclosed, rfl, rfl, rfl⟩
  | wait => exact ⟨hclosed, rfl, rfl, rfl⟩
  | take =>
      rw [Request.serve, take, if_pos hclosed]
      exact ⟨hclosed, rfl, rfl, rfl⟩
  | finish k f => exact ⟨hclosed, rfl, rfl, rfl⟩
  | close => exact ⟨rfl, rfl, rfl, rfl⟩

end Mailbox

/-! ## Runs -/

namespace Exchange

variable {Thread : Type}

/-- The mailbox goes with the receipts, and the threads are about to hand back different frames that are theirs. -/
structure Sound (s : Exchange Thread) : Prop where
  agrees : s.mailbox.Agrees s.tally
  asked : ∀ i k f, s.requests i = some (.finish k f) → k ∈ s.tally.unfinished
  apart : ∀ i j k f g, s.requests i = some (.finish k f) → s.requests j = some (.finish k g) → i = j

theorem Sound.start : (Exchange.start : Exchange Thread).Sound where
  agrees := .empty
  asked := nofun
  apart := nofun

theorem closed_tally_iff (s : Exchange Thread) : s.tally.closed = true ↔ .closed ∈ s.receipts := by
  have hfold (receipts : List Receipt) (t : Tally) :
      (receipts.foldl Tally.add t).closed = true ↔ t.closed = true ∨ .closed ∈ receipts := by
    induction receipts generalizing t with
    | nil => simp
    | cons r receipts ih => rw [List.foldl_cons, ih, Tally.closed_add, List.mem_cons, or_assoc]
  exact (hfold s.receipts .empty).trans (or_iff_right Bool.false_ne_true)

variable [DecidableEq Thread] {s s' : Exchange Thread} {i j : Thread} {r : Request}

theorem tally_serve (s : Exchange Thread) (i : Thread) (r : Request) :
    (s.serve i r).tally = s.tally.add (r.serve s.mailbox).1 :=
  List.foldl_append ..

theorem of_update {requests : Thread → Option Request} {q : Option Request}
    (h : Function.update requests i q j = some r) : (j = i ∧ q = some r) ∨ (j ≠ i ∧ requests j = some r) := by
  rcases eq_or_ne j i with rfl | hne
  · exact .inl ⟨rfl, Function.update_self j q requests ▸ h⟩
  · exact .inr ⟨hne, Function.update_of_ne hne q requests ▸ h⟩

theorem Sound.ask (h : s.Sound) (hallowed : s.Allows r) : (s.ask i r).Sound where
  agrees := h.agrees
  asked := by
    intro j k f hj
    rcases of_update hj with ⟨-, hnew⟩ | ⟨-, hbefore⟩
    · cases hnew
      exact hallowed.1
    · exact h.asked j k f hbefore
  apart := by
    intro j j' k f g hj hj'
    rcases of_update hj with ⟨rfl, hnew⟩ | ⟨-, hbefore⟩ <;> rcases of_update hj' with ⟨rfl, hnew'⟩ | ⟨-, hbefore'⟩
    · rfl
    · cases hnew
      exact absurd hbefore' (hallowed.2 j' g)
    · cases hnew'
      exact absurd hbefore (hallowed.2 j f)
    · exact h.apart j j' k f g hbefore hbefore'

theorem Sound.serve (h : s.Sound) (hasked : s.requests i = some r) (hfree : r.waits s.mailbox = false) :
    (s.serve i r).Sound where
  agrees := by
    rw [tally_serve]
    exact h.agrees.serve hfree fun k f hr => h.asked i k f (hr ▸ hasked)
  asked := by
    intro j k f hj
    rcases of_update hj with ⟨-, hnone⟩ | ⟨hne, hbefore⟩
    · cases hnone
    · rw [tally_serve]
      refine Tally.mem_unfinished_serve h.agrees.known s.mailbox (h.asked j k f hbefore) fun g hr => hne ?_
      exact h.apart j i k f g hbefore (hr ▸ hasked)
  apart := by
    intro j j' k f g hj hj'
    rcases of_update hj with ⟨-, hnone⟩ | ⟨-, hbefore⟩
    · cases hnone
    · rcases of_update hj' with ⟨-, hnone⟩ | ⟨-, hbefore'⟩
      · cases hnone
      · exact h.apart j j' k f g hbefore hbefore'

theorem Sound.step (h : s.Sound) (hstep : Step s s') : s'.Sound := by
  cases hstep with
  | ask _ hallowed => exact h.ask hallowed
  | serve hasked hfree => exact h.serve hasked hfree

theorem Sound.steps (h : s.Sound) (hsteps : Steps s s') : s'.Sound := by
  induction hsteps with
  | refl => exact h
  | tail _ hstep ih => exact ih.step hstep

/-- What a closed mailbox keeps, whatever it is asked. -/
structure Stays (s s' : Exchange Thread) : Prop where
  closed : s'.mailbox.closed = true
  published : s'.mailbox.published = s.mailbox.published
  accepted : s'.tally.accepted = s.tally.accepted
  taken : s'.tally.taken = s.tally.taken

theorem stays_of_steps (hclosed : s.mailbox.closed = true) (hsteps : Steps s s') : s.Stays s' := by
  induction hsteps with
  | refl => exact ⟨hclosed, rfl, rfl, rfl⟩
  | @tail s' s'' _ hstep ih =>
      obtain ⟨hstill, hpublished, haccepted, htaken⟩ := ih
      cases hstep with
      | ask => exact ⟨hstill, hpublished, haccepted, htaken⟩
      | @serve i r =>
          obtain ⟨hstill', hpublished', haccepted', htaken'⟩ := Mailbox.serve_of_closed hstill s'.tally r
          rw [← tally_serve s' i r] at haccepted' htaken'
          exact ⟨hstill', hpublished'.trans hpublished, haccepted'.trans haccepted, htaken'.trans htaken⟩

structure Orderly (s : Exchange Thread) : Prop where
  closed_iff : s.mailbox.closed = true ↔ .closed ∈ s.receipts
  ready_iff : s.mailbox.closed = false → (s.mailbox.ready = true ↔ s.mailbox.underway s.tally = 1)
  single : s.mailbox.closed = false → s.mailbox.underway s.tally ≤ 1
  inOrder : s.tally.taken <+: s.tally.accepted.map Canvas.frame
  nearlyAll : s.tally.accepted.length ≤ s.tally.taken.length + 1
  published_eq : s.mailbox.published = s.tally.accepted.length
  shows : ∀ (k : Nat) (f : Frame), s.tally.taken[k]? = some f →
    ∃ c : Canvas, s.tally.accepted[k]? = some c ∧ f = c.frame ∧ (c.Valid → f.Shows c)
  /-- Nothing gets into a closed mailbox or out of it. -/
  afterwards : s.mailbox.closed = true → ∀ s', Steps s s' → s.Stays s' ∧ s'.mailbox.ready = false

theorem Sound.orderly (h : s.Sound) : s.Orderly := by
  have hagrees := h.agrees
  constructor
  case closed_iff => rw [hagrees.closed_eq, closed_tally_iff]
  case ready_iff => exact hagrees.ready_iff
  case single => exact hagrees.single
  case inOrder => exact hagrees.inOrder
  case nearlyAll => exact hagrees.nearlyAll
  case published_eq => exact hagrees.published_eq
  case shows => exact fun _ _ => Canvas.shown_of_isPrefix hagrees.inOrder
  case afterwards =>
    intro hclosed s' hsteps
    have hstays := stays_of_steps hclosed hsteps
    exact ⟨hstays, ((h.steps hsteps).agrees.dropped hstays.closed).2⟩

/-- However the requests of the threads follow each other. -/
theorem orderly_of_steps (hsteps : Steps start s) : s.Orderly :=
  (Sound.start.steps hsteps).orderly

theorem Steps.atOnce {t : Exchange Thread} (hsteps : Steps t s) (hresting : s.requests i = none)
    (hallowed : s.Allows r) (hfree : r.waits s.mailbox = false) : Steps t ((s.ask i r).serve i r) :=
  (hsteps.tail (.ask hresting hallowed)).tail (.serve (Function.update_self ..) hfree)

/-- A frame that one thread hands back after another has closed the mailbox. -/
theorem orderly_of_late_return : ∃ s : Exchange Bool, Steps start s ∧ s.mailbox.closed = true ∧
    s.tally.taken.length = 1 ∧ s.tally.finished = [0] ∧ s.Orderly := by
  let c : Canvas := ⟨1, 1, .rgba8888, false, ⟨#[1, 2, 3, 4]⟩⟩
  have hstaged : Steps (start : Exchange Bool) _ :=
    Steps.atOnce (i := true) (r := .publish c) .refl rfl trivial rfl
  have htaken := hstaged.atOnce (i := false) (r := .take) rfl trivial rfl
  have hclosed := htaken.atOnce (i := true) (r := .close) rfl trivial rfl
  have hreturned := hclosed.atOnce (i := false) (r := .finish 0 c.frame) rfl
    ⟨Tally.mem_unfinished_iff.mpr ⟨Nat.zero_lt_one, List.not_mem_nil⟩, by rintro (_ | _) f <;> nofun⟩ rfl
  exact ⟨_, hreturned, rfl, rfl, rfl, orderly_of_steps hreturned⟩

end Exchange

end Framecast
