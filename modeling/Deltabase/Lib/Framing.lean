import Deltabase.Lib.Transition
import Mathlib.Algebra.BigOperators.Fin
import Mathlib.Data.List.Basic
import Mathlib.Data.List.Infix
import Mathlib.Logic.Function.Basic

/-!
# Messages over a stream of bytes

A stream carries bytes in order and knows no messages: what is written in one
call may be read in several, and the other way round. A message is therefore
sent as a **frame**, its length in a field of a fixed width and then its
content, and a reader collects first the length and then as many bytes as it
says.

`Wire` is a stream with any number of writers and one reader. Each call of a
writer hands over some part of its frame, each call of the reader takes some of
the bytes on their way, never more than it still wants; between any two calls
anything else can happen. What it is for is a `Channel`: a queue of messages
that are sent and delivered whole.

A wire is a channel as long as no writer begins a frame while another one is in
the middle of its own (`Wire.refines`). Nothing else is needed of the order in
which the parties come, nor of how the bytes are cut.
-/

section

variable {α ι : Type*}

/-- **A way to write lengths**: a field of a fixed width, from which a length
below a bound is read back. -/
structure Framing (α : Type*) where
  width : ℕ
  encode : ℕ → List α
  decode : List α → ℕ
  bound : ℕ
  width_pos : 0 < width
  length_encode : ∀ n, (encode n).length = width
  decode_encode : ∀ n, n < bound → decode (encode n) = n

/-- Where a reader is: in the length or in the content of a frame, with the
bytes it has, or at its end. -/
inductive Reading (α : Type*) where
  | length (buf : List α)
  | content (len : ℕ) (buf : List α)
  | ended

/-- The reader has a length. It ends when the length is over the limit, and has
a message already when the length is zero. -/
def Reading.begin (limit len : ℕ) : Reading α × Option (List α) :=
  if limit < len then (.ended, none)
  else if len = 0 then (.length [], some [])
  else (.content len [], none)

namespace Framing

variable (F : Framing α) (limit : ℕ)

/-- **The frame of a message.** -/
def frame (m : List α) : List α := F.encode m.length ++ m

/-- How many bytes the reader still wants of the field it is in. -/
def wanted : Reading α → ℕ
  | .length buf => F.width - buf.length
  | .content len buf => len - buf.length
  | .ended => 0

/-- **The reader is given some bytes**: where it is then, and the message it has
come to the end of. -/
def receive : Reading α → List α → Reading α × Option (List α)
  | .length buf, bs =>
    if (buf ++ bs).length < F.width then (.length (buf ++ bs), none)
    else Reading.begin limit (F.decode (buf ++ bs))
  | .content len buf, bs =>
    if (buf ++ bs).length < len then (.content len (buf ++ bs), none)
    else (.length [], some (buf ++ bs))
  | .ended, _ => (.ended, none)

/-- **What a reader is about to get**: these bytes are the rest of the frames of
these messages, the first of which it may have begun. -/
def Expects : Reading α → List α → List (List α) → Prop
  | .length buf, bytes, ms => buf.length < F.width ∧ buf ++ bytes = ms.flatMap F.frame
  | .content len buf, bytes, ms => buf.length < len ∧ ∃ m rest, ms = m :: rest ∧ m.length = len
      ∧ buf ++ bytes = m ++ rest.flatMap F.frame
  | .ended, _, _ => True

theorem expects_begin : F.Expects (.length []) [] [] := ⟨F.width_pos, rfl⟩

variable {F} {limit}

/-- A reader that has not ended wants more. -/
theorem Expects.wanted_pos {r : Reading α} {bytes : List α} {ms : List (List α)}
    (h : F.Expects r bytes ms) (hr : r ≠ .ended) : 0 < F.wanted r := by
  cases r with
  | length buf => exact Nat.sub_pos_of_lt h.1
  | content len buf => exact Nat.sub_pos_of_lt h.1
  | ended => exact absurd rfl hr

/-- More messages are written. -/
theorem Expects.append {r : Reading α} {bytes : List α} {ms : List (List α)}
    (h : F.Expects r bytes ms) (m : List α) :
    F.Expects r (bytes ++ F.frame m) (ms ++ [m]) := by
  cases r with
  | length buf =>
    obtain ⟨hlt, heq⟩ := h
    refine ⟨hlt, ?_⟩
    rw [← List.append_assoc, heq, List.flatMap_append, List.flatMap_singleton]
  | content len buf =>
    obtain ⟨hlt, m', rest, rfl, hlen, heq⟩ := h
    refine ⟨hlt, m', rest ++ [m], rfl, hlen, ?_⟩
    rw [← List.append_assoc, heq, List.flatMap_append, List.flatMap_singleton, List.append_assoc]
  | ended => trivial

/-- What is written is on its way, and the reader has not begun it. -/
theorem length_flatMap_frame {ms : List (List α)} (hms : ms ≠ []) :
    F.width ≤ (ms.flatMap F.frame).length := by
  obtain ⟨m, rest, rfl⟩ := List.exists_cons_of_ne_nil hms
  rw [List.flatMap_cons, List.length_append]
  unfold frame
  rw [List.length_append, F.length_encode]
  omega

/-- **A reader that waits with nothing on its way has had everything.** -/
theorem Expects.eq_nil {r : Reading α} {ms : List (List α)} (h : F.Expects r [] ms)
    (hr : r ≠ .ended) : ms = [] := by
  cases r with
  | length buf =>
    obtain ⟨hlt, heq⟩ := h
    by_contra hms
    rw [List.append_nil] at heq
    have hle := length_flatMap_frame (F := F) hms
    rw [← heq] at hle
    omega
  | content len buf =>
    obtain ⟨hlt, m, rest, rfl, rfl, heq⟩ := h
    rw [List.append_nil] at heq
    rw [heq, List.length_append] at hlt
    omega
  | ended => exact absurd rfl hr

/-- The bytes that complete a length are those of the next message. -/
theorem Expects.length_complete {buf bs bytes : List α} {ms : List (List α)}
    (h : F.Expects (.length buf) (bs ++ bytes) ms) (hfull : (buf ++ bs).length = F.width) :
    ∃ m rest, ms = m :: rest ∧ buf ++ bs = F.encode m.length
      ∧ bytes = m ++ rest.flatMap F.frame := by
  obtain ⟨-, heq⟩ := h
  rw [← List.append_assoc] at heq
  cases ms with
  | nil =>
    have hnil : (buf ++ bs).length = 0 := by
      rw [(List.append_eq_nil_iff.mp heq).1]
      rfl
    have hpos := F.width_pos
    omega
  | cons m rest =>
    have hsplit : (buf ++ bs) ++ bytes = F.encode m.length ++ (m ++ rest.flatMap F.frame) := by
      rw [heq, List.flatMap_cons, ← List.append_assoc]
      rfl
    obtain ⟨hhead, htail⟩ :=
      List.append_inj hsplit (hfull.trans (F.length_encode m.length).symm)
    exact ⟨m, rest, rfl, hhead, htail⟩

/-- **What the reader makes of some bytes**: it has either not come to the end
of the next message, or it has just that message. -/
theorem Expects.receive {r : Reading α} {bs bytes : List α} {ms : List (List α)}
    (h : F.Expects r (bs ++ bytes) ms) (hwanted : bs.length ≤ F.wanted r)
    (hbound : ∀ m ∈ ms, m.length < F.bound) :
    (∃ r', F.receive limit r bs = (r', none) ∧ F.Expects r' bytes ms
        ∧ ((∀ m ∈ ms, m.length ≤ limit) → r ≠ .ended → r' ≠ .ended))
      ∨ ∃ r' m rest, F.receive limit r bs = (r', some m) ∧ ms = m :: rest
        ∧ F.Expects r' bytes rest ∧ r' ≠ .ended := by
  cases r with
  | ended => exact .inl ⟨.ended, rfl, trivial, fun _ h => h⟩
  | length buf =>
    unfold Framing.receive
    by_cases hlt : (buf ++ bs).length < F.width
    · refine .inl ⟨.length (buf ++ bs), if_pos hlt, ⟨hlt, ?_⟩, fun _ _ h => by cases h⟩
      rw [List.append_assoc]
      exact h.2
    have hfull : (buf ++ bs).length = F.width := by
      have hle : bs.length ≤ F.width - buf.length := hwanted
      have hbuf := h.1
      rw [List.length_append] at hlt ⊢
      omega
    obtain ⟨m, rest, rfl, hhead, rfl⟩ := h.length_complete hfull
    have hdecode : F.decode (buf ++ bs) = m.length := by
      rw [hhead]
      exact F.decode_encode m.length (hbound m List.mem_cons_self)
    dsimp only
    rw [if_neg hlt, hdecode]
    unfold Reading.begin
    by_cases hlimit : limit < m.length
    · refine .inl ⟨.ended, if_pos hlimit, trivial, fun hall _ => ?_⟩
      exact absurd (hall m List.mem_cons_self) (Nat.not_le.mpr hlimit)
    rw [if_neg hlimit]
    by_cases hzero : m.length = 0
    · obtain rfl := List.length_eq_zero_iff.mp hzero
      exact .inr ⟨.length [], [], rest, if_pos hzero, rfl, ⟨F.width_pos, rfl⟩,
        fun h => by cases h⟩
    · exact .inl ⟨.content m.length [], if_neg hzero,
        ⟨Nat.pos_of_ne_zero hzero, m, rest, rfl, rfl, rfl⟩, fun _ _ h => by cases h⟩
  | content len buf =>
    obtain ⟨hbuf, m, rest, rfl, rfl, heq⟩ := h
    rw [← List.append_assoc] at heq
    unfold Framing.receive
    by_cases hlt : (buf ++ bs).length < m.length
    · exact .inl ⟨.content m.length (buf ++ bs), if_pos hlt, ⟨hlt, m, rest, rfl, rfl, heq⟩,
        fun _ _ h => by cases h⟩
    · have hfull : (buf ++ bs).length = m.length := by
        have hle : bs.length ≤ m.length - buf.length := hwanted
        rw [List.length_append] at hlt ⊢
        omega
      obtain ⟨hhead, htail⟩ := List.append_inj heq hfull
      refine .inr ⟨.length [], m, rest, ?_, rfl, ⟨F.width_pos, htail⟩, fun h => by cases h⟩
      rw [← hhead]
      exact if_neg (hhead ▸ hlt)

end Framing

/-! ## Channels -/

/-- What happens on a channel. Of what happens on a wire, most is not seen. -/
inductive WireEvent (ι α : Type*) where
  | sent (i : ι) (m : List α)
  | delivered (m : List α)
  /-- The reader is told that the stream is broken. -/
  | failed
  | silent

/-- The messages that are sent. -/
def sentOf : List (WireEvent ι α) → List (List α)
  | [] => []
  | .sent _ m :: es => m :: sentOf es
  | .delivered _ :: es | .failed :: es | .silent :: es => sentOf es

/-- The messages that are delivered. -/
def deliveredOf : List (WireEvent ι α) → List (List α)
  | [] => []
  | .delivered m :: es => m :: deliveredOf es
  | .sent _ _ :: es | .failed :: es | .silent :: es => deliveredOf es

theorem deliveredOf_append (es es' : List (WireEvent ι α)) :
    deliveredOf (es ++ es') = deliveredOf es ++ deliveredOf es' := by
  induction es with
  | nil => rfl
  | cons e es ih =>
    cases e with
    | delivered m => exact congrArg (m :: ·) ih
    | sent i m => exact ih
    | failed => exact ih
    | silent => exact ih

/-- **A channel**: the messages that have been sent and not delivered. -/
inductive ChannelStep : List (List α) → WireEvent ι α → List (List α) → Prop
  | sent (ms : List (List α)) (i : ι) (m : List α) : ChannelStep ms (.sent i m) (ms ++ [m])
  | delivered (m : List α) (ms : List (List α)) : ChannelStep (m :: ms) (.delivered m) ms
  | failed (ms : List (List α)) : ChannelStep ms .failed ms
  | silent (ms : List (List α)) : ChannelStep ms .silent ms

/-- **A channel loses nothing and invents nothing**: what is sent is delivered,
in order, or still in the channel. -/
theorem delivered_append {ms ms' : List (List α)} {es : List (WireEvent ι α)}
    (h : Run ChannelStep ms es ms') : ms ++ sentOf es = deliveredOf es ++ ms' := by
  induction h with
  | nil ms => exact List.append_nil ms
  | cons hstep _ ih =>
    cases hstep with
    | sent ms i m =>
      rw [sentOf, deliveredOf, ← ih, List.append_assoc, List.singleton_append]
    | delivered m ms =>
      rw [sentOf, deliveredOf, List.cons_append, List.cons_append, ih]
    | failed ms => exact ih
    | silent ms => exact ih

/-! ## Wires -/

/-- A writer: the messages it is going to send, and what it has not handed over
of the frame it is in. -/
structure FrameWriter (α : Type*) where
  queue : List (List α)
  rest : List α := []

/-- **A stream with its writers and its reader.** -/
structure Wire (ι α : Type*) where
  writers : ι → FrameWriter α
  inFlight : List α := []
  reading : Reading α := .length []

namespace Wire

section

variable (F : Framing α)

/-- **A wire and the channel that it is**: one writer at most is in a frame, and
the reader expects what is on its way and the rest of that frame. -/
structure IsChannel (w : Wire ι α) (ms : List (List α)) : Prop where
  expects : ∃ rest, F.Expects w.reading (w.inFlight ++ rest) ms
    ∧ ((∀ i, (w.writers i).rest = []) ∧ rest = []
      ∨ ∃ i, (w.writers i).rest = rest ∧ ∀ j, j ≠ i → (w.writers j).rest = [])
  queued : ∀ i, ∀ m ∈ (w.writers i).queue, m.length < F.bound
  sent : ∀ m ∈ ms, m.length < F.bound

variable {F} {exclusive : Prop} {w : Wire ι α}

/-- With one writer at most in a frame, all are out of theirs when some idle
writer is the only one there is, or the writers exclude one another. -/
theorem idle_of_begin {i : ι} (hi : (w.writers i).rest = [])
    (hexclusive : exclusive → ∀ j, (w.writers j).rest = []) (halone : exclusive ∨ Subsingleton ι) :
    ∀ j, (w.writers j).rest = [] := by
  rcases halone with h | h
  · exact hexclusive h
  · intro j
    rw [h.elim j i]
    exact hi

/-- Writers that are about to send these messages. -/
def start (queues : ι → List (List α)) : Wire ι α where
  writers i := { queue := queues i }

theorem isChannel_start {queues : ι → List (List α)}
    (hbound : ∀ i, ∀ m ∈ queues i, m.length < F.bound) : IsChannel F (start queues) [] :=
  ⟨⟨[], F.expects_begin, .inl ⟨fun _ => rfl, rfl⟩⟩, hbound, fun _ hm => absurd hm List.not_mem_nil⟩

/-- **What the reader makes of the bytes it takes.** -/
theorem IsChannel.receive {ms : List (List α)} (h : IsChannel F w ms) (limit : ℕ) {n : ℕ}
    (hwanted : n ≤ F.wanted w.reading) :
    (∃ r, F.receive limit w.reading (w.inFlight.take n) = (r, none)
        ∧ IsChannel F { w with inFlight := w.inFlight.drop n, reading := r } ms
        ∧ ((∀ m ∈ ms, m.length ≤ limit) → w.reading ≠ .ended → r ≠ .ended))
      ∨ ∃ r m ms', F.receive limit w.reading (w.inFlight.take n) = (r, some m) ∧ ms = m :: ms'
        ∧ IsChannel F { w with inFlight := w.inFlight.drop n, reading := r } ms'
        ∧ r ≠ .ended := by
  obtain ⟨⟨rest, hexpects, hwriters⟩, hqueued, hsent⟩ := h
  have hsplit : F.Expects w.reading (w.inFlight.take n ++ (w.inFlight.drop n ++ rest)) ms := by
    rw [← List.append_assoc, List.take_append_drop]
    exact hexpects
  have hlen : (w.inFlight.take n).length ≤ F.wanted w.reading :=
    (List.length_take_le n _).trans hwanted
  rcases hsplit.receive hlen hsent with
    ⟨r, heq, hexpects', hgoes⟩ | ⟨r, m, ms', heq, rfl, hexpects', hgoes⟩
  · exact .inl ⟨r, heq, ⟨⟨rest, hexpects', hwriters⟩, hqueued, hsent⟩, hgoes⟩
  · exact .inr ⟨r, m, ms', heq, rfl, ⟨⟨rest, hexpects', hwriters⟩, hqueued,
      fun m' hm' => hsent m' (List.mem_cons_of_mem m hm')⟩, hgoes⟩

/-- Nothing is left to be written or read. -/
def Quiet (w : Wire ι α) : Prop :=
  (∀ i, (w.writers i).queue = [] ∧ (w.writers i).rest = []) ∧ w.inFlight = []

/-- **Nothing is in the channel of a quiet wire.** -/
theorem IsChannel.eq_nil {ms : List (List α)} (h : IsChannel F w ms)
    (hreading : w.reading ≠ .ended) (hquiet : w.Quiet) : ms = [] := by
  obtain ⟨⟨rest, hexpects, hwriters⟩, -, -⟩ := h
  have hrest : rest = [] := by
    rcases hwriters with ⟨-, hrest⟩ | ⟨i, hrest, -⟩
    · exact hrest
    · exact hrest.symm.trans (hquiet.1 i).2
  rw [hquiet.2, hrest] at hexpects
  exact hexpects.eq_nil hreading

end

variable [DecidableEq ι] (F : Framing α) (limit : ℕ) (exclusive : Prop)

/-- **A step of a wire.** With `exclusive`, a writer does not begin a frame
before the others are through with theirs. -/
inductive Step : Wire ι α → WireEvent ι α → Wire ι α → Prop
  | begin {w : Wire ι α} {i : ι} {m : List α} {queue : List (List α)}
      (hi : w.writers i = { queue := m :: queue, rest := [] })
      (hexclusive : exclusive → ∀ j, (w.writers j).rest = []) :
      Step w (.sent i m)
        { w with writers := Function.update w.writers i { queue, rest := F.frame m } }
  | write {w : Wire ι α} {i : ι} {n : ℕ} (hpos : 0 < n) (hn : n ≤ (w.writers i).rest.length) :
      Step w .silent { w with
        writers := Function.update w.writers i
          { w.writers i with rest := (w.writers i).rest.drop n }
        inFlight := w.inFlight ++ (w.writers i).rest.take n }
  | read {w : Wire ι α} {n : ℕ} {r : Reading α} {message : Option (List α)} (hpos : 0 < n)
      (hn : n ≤ w.inFlight.length) (hwanted : n ≤ F.wanted w.reading)
      (hreceive : F.receive limit w.reading (w.inFlight.take n) = (r, message)) :
      Step w (message.elim .silent .delivered)
        { w with inFlight := w.inFlight.drop n, reading := r }
  | fail (w : Wire ι α) : Step w .failed { w with reading := .ended }

variable {F} {limit} {exclusive} {w w' : Wire ι α} {ms : List (List α)} {e : WireEvent ι α}

/-- A writer that changes is not going to send anything new. -/
theorem mem_queue_update {writers : ι → FrameWriter α} {i j : ι} {x : FrameWriter α} {m : List α}
    (hm : m ∈ (Function.update writers i x j).queue) (hx : x.queue ⊆ (writers i).queue) :
    m ∈ (writers j).queue := by
  by_cases hj : j = i
  · subst hj
    rw [Function.update_self] at hm
    exact hx hm
  · rw [Function.update_of_ne hj] at hm
    exact hm

/-- **Every step of a wire is one of its channel.** -/
theorem IsChannel.step (halone : exclusive ∨ Subsingleton ι) (h : IsChannel F w ms)
    (hstep : Step F limit exclusive w e w') : ∃ ms', ChannelStep ms e ms' ∧ IsChannel F w' ms' := by
  obtain ⟨⟨rest, hexpects, hwriters⟩, hqueued, hsent⟩ := h
  cases hstep with
  | @begin i m queue hi hexclusive =>
    have hidle := idle_of_begin (by rw [hi]) hexclusive halone
    have hrest : rest = [] := by
      rcases hwriters with ⟨-, hrest⟩ | ⟨j, hrest, -⟩
      · exact hrest
      · exact hrest.symm.trans (hidle j)
    subst hrest
    have hm : m.length < F.bound := hqueued i m (by rw [hi]; exact List.mem_cons_self)
    refine ⟨ms ++ [m], .sent ms i m, ⟨F.frame m, ?_, .inr ⟨i, ?_, fun j hj => ?_⟩⟩,
      fun j m' hm' => ?_, fun m' hm' => ?_⟩
    · have happend := hexpects.append m
      rw [List.append_nil] at happend
      exact happend
    · dsimp only
      rw [Function.update_self]
    · dsimp only
      rw [Function.update_of_ne hj]
      exact hidle j
    · have hsub : queue ⊆ (w.writers i).queue := by
        rw [hi]
        exact List.subset_cons_self m queue
      exact hqueued j m' (mem_queue_update hm' hsub)
    · rcases List.mem_append.mp hm' with hm' | hm'
      · exact hsent m' hm'
      · rw [List.mem_singleton.mp hm']
        exact hm
  | @write i n hpos hn =>
    have hbusy : (w.writers i).rest ≠ [] := fun hnil => by
      rw [hnil] at hn
      exact absurd hn (Nat.not_le.mpr hpos)
    obtain ⟨hrest, hothers⟩ : (w.writers i).rest = rest ∧ ∀ j, j ≠ i → (w.writers j).rest = [] := by
      rcases hwriters with ⟨hidle, -⟩ | ⟨j, hrest, hothers⟩
      · exact absurd (hidle i) hbusy
      · obtain rfl : i = j := by
          by_contra hne
          exact hbusy (hothers i hne)
        exact ⟨hrest, hothers⟩
    refine ⟨ms, .silent ms, ⟨rest.drop n, ?_, .inr ⟨i, ?_, fun j hj => ?_⟩⟩, fun j m' hm' => ?_,
      hsent⟩
    · dsimp only
      rw [hrest, List.append_assoc, List.take_append_drop]
      exact hexpects
    · dsimp only
      rw [Function.update_self, hrest]
    · dsimp only
      rw [Function.update_of_ne hj]
      exact hothers j hj
    · exact hqueued j m' (mem_queue_update hm' (List.Subset.refl _))
  | @read n r message hpos hn hwanted hreceive =>
    have h : IsChannel F w ms := ⟨⟨rest, hexpects, hwriters⟩, hqueued, hsent⟩
    rcases h.receive limit hwanted with ⟨r', heq, hrel, -⟩ | ⟨r', m, ms', heq, rfl, hrel, -⟩
    · obtain ⟨rfl, rfl⟩ := Prod.mk.inj (hreceive.symm.trans heq)
      exact ⟨ms, .silent ms, hrel⟩
    · obtain ⟨rfl, rfl⟩ := Prod.mk.inj (hreceive.symm.trans heq)
      exact ⟨ms', .delivered m ms', hrel⟩
  | fail => exact ⟨ms, .failed ms, ⟨rest, trivial, hwriters⟩, hqueued, hsent⟩

/-- **A wire refines a channel.** -/
theorem refines (halone : exclusive ∨ Subsingleton ι) {es : List (WireEvent ι α)}
    (h : IsChannel F w ms) (hrun : Run (Step F limit exclusive) w es w') :
    ∃ ms', Run ChannelStep ms es ms' ∧ IsChannel F w' ms' :=
  hrun.simulation (R := IsChannel F) (fun _ _ _ _ hrel hstep => hrel.step halone hstep) h

/-! ## Each writer -/

/-- The messages that a writer has sent. -/
def sentBy (i : ι) : List (WireEvent ι α) → List (List α)
  | [] => []
  | .sent j m :: es => if j = i then m :: sentBy i es else sentBy i es
  | .delivered _ :: es | .failed :: es | .silent :: es => sentBy i es

/-- **A writer sends its messages in order**: what it has sent and what it is
going to send are what it was given. -/
theorem sentBy_append {es : List (WireEvent ι α)} (hrun : Run (Step F limit exclusive) w es w')
    (i : ι) : sentBy i es ++ (w'.writers i).queue = (w.writers i).queue := by
  induction hrun with
  | nil => rfl
  | cons hstep _ ih =>
    cases hstep with
    | @begin j m queue hj hexclusive =>
      dsimp only at ih
      by_cases hji : j = i
      · subst hji
        rw [Function.update_self] at ih
        rw [sentBy, if_pos rfl, List.cons_append, ih, hj]
      · rw [Function.update_of_ne (Ne.symm hji)] at ih
        rw [sentBy, if_neg hji, ih]
    | @write j n hpos hn =>
      dsimp only at ih
      refine Eq.trans ih ?_
      by_cases hji : j = i
      · subst hji
        rw [Function.update_self]
      · rw [Function.update_of_ne (Ne.symm hji)]
    | @read n r message hpos hn hwanted hreceive =>
      cases message with
      | none => exact ih
      | some m => exact ih
    | fail => exact ih

/-! ## Wires come to rest when everything has arrived -/

/-- **A wire that is not quiet goes on**, as long as its reader has not
ended. -/
theorem exists_step (limit : ℕ) (exclusive : Prop) (h : IsChannel F w ms)
    (hreading : w.reading ≠ .ended) (hquiet : ¬ w.Quiet) :
    ∃ e w', e ≠ .failed ∧ Step F limit exclusive w e w' := by
  obtain ⟨⟨rest, hexpects, hwriters⟩, -, -⟩ := h
  by_cases hflight : w.inFlight = []
  · by_cases hidle : ∀ i, (w.writers i).rest = []
    · have hqueue : ∃ i, (w.writers i).queue ≠ [] := by
        by_contra hnone
        push Not at hnone
        exact hquiet ⟨fun i => ⟨hnone i, hidle i⟩, hflight⟩
      obtain ⟨i, hi⟩ := hqueue
      obtain ⟨m, queue, hm⟩ := List.exists_cons_of_ne_nil hi
      have hwriter : w.writers i = { queue := m :: queue, rest := [] } := by
        rw [← hm, ← hidle i]
      exact ⟨.sent i m, _, (fun h => by cases h), .begin hwriter fun _ => hidle⟩
    · obtain ⟨i, hi⟩ := not_forall.mp hidle
      exact ⟨.silent, _, (fun h => by cases h),
        .write (i := i) Nat.one_pos (List.length_pos_iff.mpr hi)⟩
  · have hpos := hexpects.wanted_pos hreading
    obtain ⟨r, message, hreceive⟩ :
        ∃ r message, F.receive limit w.reading (w.inFlight.take 1) = (r, message) := ⟨_, _, rfl⟩
    refine ⟨_, _, ?_, .read Nat.one_pos (List.length_pos_iff.mpr hflight) hpos hreceive⟩
    cases message with
    | none => exact fun h => by cases h
    | some m => exact fun h => by cases h

/-! ## Frames in one piece and in two -/

section

variable (F) (limit) (exclusive)

/-- The reader takes a length. -/
theorem step_read_length {m : List α} {rest : List α} (hbound : m.length < F.bound)
    (hlimit : m.length ≤ limit) (hpos : 0 < m.length)
    (hflight : w.inFlight = F.encode m.length ++ rest) (hreading : w.reading = .length []) :
    Step F limit exclusive w .silent
      { w with inFlight := rest, reading := .content m.length [] } := by
  have htake : w.inFlight.take F.width = F.encode m.length := by
    rw [hflight, ← F.length_encode m.length]
    exact List.take_left
  have hdrop : w.inFlight.drop F.width = rest := by
    rw [hflight, ← F.length_encode m.length]
    exact List.drop_left
  have hreceive : F.receive limit w.reading (w.inFlight.take F.width)
      = (.content m.length [], none) := by
    have hfull : ¬ (F.encode m.length).length < F.width :=
      Nat.not_lt.mpr (F.length_encode m.length).ge
    rw [htake, hreading]
    show (if (F.encode m.length).length < F.width then _
      else Reading.begin limit (F.decode (F.encode m.length))) = _
    rw [if_neg hfull, F.decode_encode m.length hbound, Reading.begin,
      if_neg (Nat.not_lt.mpr hlimit), if_neg hpos.ne']
  have hle : F.width ≤ w.inFlight.length := by
    rw [hflight, List.length_append, F.length_encode]
    exact Nat.le_add_right _ _
  have hwanted : F.width ≤ F.wanted w.reading := by
    rw [hreading]
    exact le_rfl
  have hstep : Step F limit exclusive w _ _ := Step.read F.width_pos hle hwanted hreceive
  rw [hdrop] at hstep
  exact hstep

/-- The reader takes a content. -/
theorem step_read_content {m rest : List α} (hpos : 0 < m.length)
    (hflight : w.inFlight = m ++ rest) (hreading : w.reading = .content m.length []) :
    Step F limit exclusive w (.delivered m) { w with inFlight := rest, reading := .length [] } := by
  have htake : w.inFlight.take m.length = m := by
    rw [hflight]
    exact List.take_left
  have hdrop : w.inFlight.drop m.length = rest := by
    rw [hflight]
    exact List.drop_left
  have hreceive : F.receive limit w.reading (w.inFlight.take m.length)
      = (.length [], some m) := by
    rw [htake, hreading]
    exact if_neg (Nat.lt_irrefl _)
  have hle : m.length ≤ w.inFlight.length := by
    rw [hflight, List.length_append]
    exact Nat.le_add_right _ _
  have hwanted : m.length ≤ F.wanted w.reading := by
    rw [hreading]
    exact le_rfl
  have hstep : Step F limit exclusive w _ _ := Step.read hpos hle hwanted hreceive
  rw [hdrop] at hstep
  exact hstep

/-- A writer begins a frame. -/
theorem exists_begin {i : ι} {m : List α} {queue : List (List α)}
    (hi : w.writers i = { queue := m :: queue, rest := [] })
    (hexclusive : exclusive → ∀ j, (w.writers j).rest = []) :
    ∃ w', Step F limit exclusive w (.sent i m) w'
      ∧ w'.writers i = { queue, rest := F.frame m } ∧ (∀ j, j ≠ i → w'.writers j = w.writers j)
      ∧ w'.inFlight = w.inFlight ∧ w'.reading = w.reading :=
  ⟨_, .begin hi hexclusive, Function.update_self .., fun _ hj => Function.update_of_ne hj ..,
    rfl, rfl⟩

/-- A writer hands over the beginning of what it has left. -/
theorem exists_write {i : ι} {queue : List (List α)} {bs rest : List α} (hpos : 0 < bs.length)
    (hi : w.writers i = { queue, rest := bs ++ rest }) :
    ∃ w', Step F limit exclusive w .silent w'
      ∧ w'.writers i = { queue, rest } ∧ (∀ j, j ≠ i → w'.writers j = w.writers j)
      ∧ w'.inFlight = w.inFlight ++ bs ∧ w'.reading = w.reading := by
  have hle : bs.length ≤ (w.writers i).rest.length := by
    rw [hi, List.length_append]
    exact Nat.le_add_right _ _
  refine ⟨_, .write hpos hle, ?_, fun j hj => Function.update_of_ne hj .., ?_, rfl⟩
  · dsimp only
    rw [Function.update_self, hi, List.drop_left]
  · dsimp only
    rw [hi, List.take_left]

end

/-- **A frame that is sent in one piece is delivered.** -/
theorem exists_run_frame {i : ι} {m : List α} {queue : List (List α)}
    (hi : w.writers i = { queue := m :: queue, rest := [] })
    (hexclusive : exclusive → ∀ j, (w.writers j).rest = [])
    (hflight : w.inFlight = []) (hreading : w.reading = .length [])
    (hbound : m.length < F.bound) (hlimit : m.length ≤ limit) (hpos : 0 < m.length) :
    ∃ w', Run (Step F limit exclusive) w [.sent i m, .silent, .silent, .delivered m] w'
      ∧ w'.writers i = { queue, rest := [] } ∧ (∀ j, j ≠ i → w'.writers j = w.writers j)
      ∧ w'.inFlight = [] ∧ w'.reading = .length [] := by
  obtain ⟨w₁, h₁, hi₁, hothers₁, hflight₁, hreading₁⟩ :=
    exists_begin F limit exclusive hi hexclusive
  have hframe : 0 < (F.frame m).length := by
    rw [Framing.frame, List.length_append]
    omega
  obtain ⟨w₂, h₂, hi₂, hothers₂, hflight₂, hreading₂⟩ :=
    exists_write F limit exclusive hframe (hi₁.trans (by rw [List.append_nil]))
  rw [hflight₁, hflight, List.nil_append] at hflight₂
  have h₃ := step_read_length F limit exclusive hbound hlimit hpos hflight₂
    (hreading₂.trans (hreading₁.trans hreading))
  have h₄ := step_read_content F limit exclusive
    (w := { w₂ with inFlight := m, reading := .content m.length [] })
    hpos (List.append_nil m).symm rfl
  exact ⟨_, .cons h₁ (.cons h₂ (.cons h₃ (.single h₄))), hi₂,
    fun j hj => (hothers₂ j hj).trans (hothers₁ j hj), rfl, rfl⟩

/-- **A frame that is sent in two pieces**: when another writer comes in between
its length and its content, the reader is handed as much as the length says,
beginning with the length of the other frame. -/
theorem exists_run_torn {i j : ι} (hij : i ≠ j) {m m' : List α} {queue queue' : List (List α)}
    (hi : w.writers i = { queue := m :: queue, rest := [] })
    (hj : w.writers j = { queue := m' :: queue', rest := [] })
    (hflight : w.inFlight = []) (hreading : w.reading = .length [])
    (hbound : m.length < F.bound) (hlimit : m.length ≤ limit) (hpos : 0 < m.length) :
    ∃ w', Run (Step F limit False) w
      [.sent i m, .silent, .sent j m', .silent, .silent, .silent,
        .delivered ((F.frame m' ++ m).take m.length)] w' := by
  have hwidth : 0 < (F.encode m.length).length := (F.length_encode m.length).symm ▸ F.width_pos
  have hframe : 0 < (F.frame m').length := by
    rw [Framing.frame, List.length_append, F.length_encode]
    have hpos := F.width_pos
    omega
  obtain ⟨w₁, h₁, hi₁, hothers₁, hflight₁, hreading₁⟩ :=
    exists_begin F limit False hi False.elim
  obtain ⟨w₂, h₂, hi₂, hothers₂, hflight₂, hreading₂⟩ := exists_write F limit False hwidth hi₁
  have hj₂ : w₂.writers j = { queue := m' :: queue', rest := [] } :=
    ((hothers₂ j hij.symm).trans (hothers₁ j hij.symm)).trans hj
  obtain ⟨w₃, h₃, hj₃, hothers₃, hflight₃, hreading₃⟩ :=
    exists_begin F limit False hj₂ False.elim
  obtain ⟨w₄, h₄, -, hothers₄, hflight₄, hreading₄⟩ :=
    exists_write F limit False hframe (hj₃.trans (by rw [List.append_nil]))
  have hi₄ : w₄.writers i = { queue, rest := m ++ [] } := by
    rw [hothers₄ i hij, hothers₃ i hij, hi₂, List.append_nil]
  obtain ⟨w₅, h₅, -, -, hflight₅, hreading₅⟩ := exists_write F limit False hpos hi₄
  have hbytes : w₅.inFlight = F.encode m.length ++ (F.frame m' ++ m) := by
    rw [hflight₅, hflight₄, hflight₃, hflight₂, hflight₁, hflight, List.nil_append,
      List.append_assoc]
  have hreads : w₅.reading = .length [] := by
    rw [hreading₅, hreading₄, hreading₃, hreading₂, hreading₁, hreading]
  have h₆ := step_read_length F limit False hbound hlimit hpos hbytes hreads
  have hlen : ((F.frame m' ++ m).take m.length).length = m.length :=
    List.length_take_of_le (by rw [List.length_append]; exact Nat.le_add_left _ _)
  have h₇ := step_read_content F limit False
    (w := { w₅ with inFlight := F.frame m' ++ m, reading := .content m.length [] })
    (m := (F.frame m' ++ m).take m.length) (hlen.symm ▸ hpos)
    (List.take_append_drop m.length _).symm (by rw [hlen])
  exact ⟨_, .cons h₁ (.cons h₂ (.cons h₃ (.cons h₄ (.cons h₅ (.cons h₆ (.single h₇))))))⟩

/-- **A wire that is whole**: its reader has not ended, and is not sent a message
over its limit. -/
structure IsWhole (F : Framing α) (limit : ℕ) (w : Wire ι α) (ms : List (List α)) : Prop
    extends IsChannel F w ms where
  reading : w.reading ≠ .ended
  queued_le : ∀ i, ∀ m ∈ (w.writers i).queue, m.length ≤ limit
  sent_le : ∀ m ∈ ms, m.length ≤ limit

/-- **A wire stays whole until it fails.** -/
theorem IsWhole.step (halone : exclusive ∨ Subsingleton ι) (h : IsWhole F limit w ms)
    (he : e ≠ .failed) (hstep : Step F limit exclusive w e w') :
    ∃ ms', ChannelStep ms e ms' ∧ IsWhole F limit w' ms' := by
  obtain ⟨ms', hchannel, hrel⟩ := h.toIsChannel.step halone hstep
  refine ⟨ms', hchannel, ?_⟩
  cases hstep with
  | @begin i m queue hi hexclusive =>
    cases hchannel
    have hsub : queue ⊆ (w.writers i).queue := by
      rw [hi]
      exact List.subset_cons_self m queue
    refine ⟨hrel, h.reading, fun j m' hm' => h.queued_le j m' (mem_queue_update hm' hsub),
      fun m' hm' => ?_⟩
    rcases List.mem_append.mp hm' with hm' | hm'
    · exact h.sent_le m' hm'
    · rw [List.mem_singleton.mp hm']
      exact h.queued_le i m (by rw [hi]; exact List.mem_cons_self)
  | @write i n hpos hn =>
    cases hchannel
    exact ⟨hrel, h.reading,
      fun j m' hm' => h.queued_le j m' (mem_queue_update hm' (List.Subset.refl _)),
      h.sent_le⟩
  | @read n r message hpos hn hwanted hreceive =>
    rcases h.toIsChannel.receive limit hwanted with
      ⟨r', heq, -, hgoes⟩ | ⟨r', m, rest, heq, rfl, -, hgoes⟩
    · obtain ⟨rfl, rfl⟩ := Prod.mk.inj (hreceive.symm.trans heq)
      cases hchannel
      exact ⟨hrel, hgoes h.sent_le h.reading, h.queued_le, h.sent_le⟩
    · obtain ⟨rfl, rfl⟩ := Prod.mk.inj (hreceive.symm.trans heq)
      cases hchannel
      exact ⟨hrel, hgoes, h.queued_le, fun m' hm' => h.sent_le m' (List.mem_cons_of_mem m hm')⟩
  | fail => exact absurd rfl he

/-- **A wire is whole for as long as it has not failed.** -/
theorem IsWhole.run (halone : exclusive ∨ Subsingleton ι) {es : List (WireEvent ι α)}
    (h : IsWhole F limit w ms) (hrun : Run (Step F limit exclusive) w es w')
    (hwhole : .failed ∉ es) : ∃ ms', Run ChannelStep ms es ms' ∧ IsWhole F limit w' ms' := by
  induction hrun generalizing ms with
  | nil => exact ⟨ms, .nil ms, h⟩
  | cons hstep _ ih =>
    obtain ⟨hfirst, hwhole'⟩ := not_or.mp (List.mem_cons.not.mp hwhole)
    obtain ⟨ms', hchannel, hnext⟩ := h.step halone (Ne.symm hfirst) hstep
    obtain ⟨ms'', hrest, hlast⟩ := ih hnext hwhole'
    exact ⟨ms'', .cons hchannel hrest, hlast⟩

end Wire

/-! ## How long a wire goes on -/

/-- The steps that a writer still gives rise to, when each byte is written and
read on its own. -/
def FrameWriter.work (F : Framing α) (x : FrameWriter α) : ℕ :=
  (x.queue.map fun m => 2 * (F.frame m).length + 1).sum + 2 * x.rest.length

namespace Wire

variable [DecidableEq ι] [Fintype ι] {F : Framing α} {limit : ℕ} {exclusive : Prop}
  {w w' : Wire ι α} {ms : List (List α)} {es : List (WireEvent ι α)}

/-- The steps that a wire still takes at most. -/
def work (F : Framing α) (w : Wire ι α) : ℕ := ∑ i, (w.writers i).work F + w.inFlight.length

/-- One writer changes. -/
theorem sum_work_update (writers : ι → FrameWriter α) (i : ι) (x : FrameWriter α) :
    ∑ j, (Function.update writers i x j).work F + (writers i).work F
      = ∑ j, (writers j).work F + x.work F := by
  rw [← Finset.add_sum_erase _ _ (Finset.mem_univ i),
    ← Finset.add_sum_erase _ (fun j => (writers j).work F) (Finset.mem_univ i),
    Function.update_self]
  have hothers : ∑ j ∈ Finset.univ.erase i, (Function.update writers i x j).work F
      = ∑ j ∈ Finset.univ.erase i, (writers j).work F :=
    Finset.sum_congr rfl fun j hj => by
      rw [Function.update_of_ne (Finset.ne_of_mem_erase hj)]
  rw [hothers]
  omega

/-- **Every step but a failure is one step less to take.** -/
theorem work_lt {e : WireEvent ι α} (hstep : Step F limit exclusive w e w') (he : e ≠ .failed) :
    w'.work F < w.work F := by
  unfold work
  cases hstep with
  | @begin i m queue hi hexclusive =>
    have hsum := sum_work_update (F := F) w.writers i { queue, rest := F.frame m }
    rw [hi] at hsum
    simp only [FrameWriter.work, List.map_cons, List.sum_cons, List.length_nil] at hsum ⊢
    omega
  | @write i n hpos hn =>
    have hsum := sum_work_update (F := F) w.writers i
      { w.writers i with rest := (w.writers i).rest.drop n }
    simp only [FrameWriter.work, List.length_drop, List.length_append, List.length_take] at hsum ⊢
    omega
  | @read n r message hpos hn hwanted hreceive =>
    simp only [List.length_drop]
    omega
  | fail => exact absurd rfl he

/-- **A stream that stays whole comes to rest.** -/
theorem length_add_work_le (hrun : Run (Step F limit exclusive) w es w') (hwhole : .failed ∉ es) :
    es.length + w'.work F ≤ w.work F := by
  induction hrun with
  | nil => exact (Nat.zero_add _).le
  | cons hstep _ ih =>
    obtain ⟨hfirst, hwhole'⟩ := not_or.mp (List.mem_cons.not.mp hwhole)
    have hlt := work_lt hstep (Ne.symm hfirst)
    have hrest := ih hwhole'
    rw [List.length_cons]
    omega

/-- **A wire that is whole can come to rest**, whatever has happened. -/
theorem IsWhole.exists_quiet (halone : exclusive ∨ Subsingleton ι) (h : IsWhole F limit w ms) :
    ∃ es w', Run (Step F limit exclusive) w es w' ∧ .failed ∉ es ∧ w'.Quiet := by
  induction hn : w.work F using Nat.strong_induction_on generalizing w ms with
  | h n ih =>
    by_cases hquiet : w.Quiet
    · exact ⟨[], w, .nil w, List.not_mem_nil, hquiet⟩
    obtain ⟨e, w₁, he, hstep⟩ := exists_step limit exclusive h.toIsChannel h.reading hquiet
    obtain ⟨ms₁, -, hnext⟩ := h.step halone he hstep
    obtain ⟨es, w', hrun, hwhole, hrest⟩ := ih _ (hn ▸ work_lt hstep he) hnext rfl
    exact ⟨e :: es, w', .cons hstep hrun, List.not_mem_cons_of_ne_of_not_mem he.symm hwhole, hrest⟩

end Wire

end
