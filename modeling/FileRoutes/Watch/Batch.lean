import FileRoutes.Watch

/-!
# Batches of changes

Changes arrive one path at a time. A call for a batch waits for the first change that
matters, takes everything that arrives after it, and ends with the first quiet period or
with the channel. Changes keep arriving while a call is running, so a call is a series of
small steps, and anything may happen between two of them.

## The model

* `Channel` — the changes not yet taken, and whether more can come.
* `Collector` — the channel together with the changes that the running call holds.
* `Happening`, `Collector.after` — what can happen, and what it comes to.
* `nextBatch` — a whole call during which nothing arrives.

## What is proved

* `nextBatch_eq` — such a call takes the whole queue and keeps what matters of it, in order.
-/

namespace FileRoutes.Watch

/-- The changes on their way to the generator. -/
structure Channel where
  /-- The changed paths not yet taken, the oldest first. -/
  queue : List Path := []
  /-- Whether no more changes can arrive. -/
  closed : Bool := false
deriving DecidableEq, Inhabited

namespace Channel

/-- The channel after more changes; a closed channel takes none. -/
def send (ch : Channel) (paths : List Path) : Channel :=
  if ch.closed then ch else { ch with queue := ch.queue ++ paths }

/-- The channel with its sending end gone. -/
def close (ch : Channel) : Channel := { ch with closed := true }

end Channel

/-- What a call for a batch ends with. -/
inductive Batch where
  /-- These changes, then a quiet period or the end of the channel. -/
  | paths (changes : List Path)
  /-- The channel ended before a change that matters. -/
  | closed
deriving DecidableEq, Inhabited

/-- A channel and the call that takes from it. -/
structure Collector where
  /-- The channel. -/
  channel : Channel := {}
  /-- What the running call has kept so far; nothing where no call is running. -/
  held : List Path := []
deriving DecidableEq, Inhabited

/-- What can happen next. -/
inductive Happening where
  /-- Changes are sent. -/
  | sent (paths : List Path)
  /-- The sending end goes. -/
  | ended
  /-- The call takes the next change, or notices that the channel has ended. -/
  | taken
  /-- The quiet period is over. -/
  | quiet
deriving DecidableEq, Inhabited

namespace Collector

/-- The end of the running call. -/
def finish (c : Collector) : Option Batch × Collector :=
  (some (if c.held = [] then .closed else .paths c.held), { c with held := [] })

/-- The collector with the next change taken; it is kept if it matters. -/
def take (ignored : Path) (c : Collector) : Option Batch × Collector :=
  match c.channel.queue with
  | p :: rest =>
    (none, { channel := { c.channel with queue := rest }
             held := if matters ignored p then c.held ++ [p] else c.held })
  | [] => if c.channel.closed then c.finish else (none, c)

/-- The collector after something has happened, and the batch that a call ended with. The
quiet period counts only behind a first change. It may be over though a change has just arrived:
the call looks for changes first and at the clock then. -/
def after (ignored : Path) (c : Collector) : Happening → Option Batch × Collector
  | .sent paths => (none, { c with channel := c.channel.send paths })
  | .ended => (none, { c with channel := c.channel.close })
  | .taken => c.take ignored
  | .quiet => if c.held = [] then (none, c) else c.finish

/-- The batches of the calls that end while some things happen, in order, and what is left. -/
def run (ignored : Path) (c : Collector) : List Happening → List Batch × Collector
  | [] => ([], c)
  | h :: rest =>
    let (batch, next) := c.after ignored h
    let (batches, last) := next.run ignored rest
    (batch.toList ++ batches, last)

end Collector

/-- A call during which nothing arrives: it takes what is there, then notices the end of the
channel or the quiet period. -/
def undisturbed (ch : Channel) : List Happening :=
  ch.queue.map (fun _ => .taken) ++ [.taken, .quiet]

/-- The next batch of a channel, if its call ends though nothing arrives, and the channel
behind it. -/
def nextBatch (ignored : Path) (ch : Channel) : Option Batch × Channel :=
  let (batches, c) := ({ channel := ch } : Collector).run ignored (undisturbed ch)
  (batches.head?, c.channel)

theorem Collector.run_append (ignored : Path) (c : Collector) (hs ks : List Happening) :
    c.run ignored (hs ++ ks) =
      ((c.run ignored hs).1 ++ ((c.run ignored hs).2.run ignored ks).1,
        ((c.run ignored hs).2.run ignored ks).2) := by
  induction hs generalizing c with
  | nil => simp [run]
  | cons h hs ih => simp [run, ih, List.append_assoc]

/-- Taking as often as there are changes takes them all and ends no call. -/
theorem Collector.run_taken (ignored : Path) (closed : Bool) (queue held : List Path) :
    run ignored ⟨⟨queue, closed⟩, held⟩ (queue.map fun _ => .taken) =
      ([], ⟨⟨[], closed⟩, held ++ queue.filter (matters ignored)⟩) := by
  induction queue generalizing held with
  | nil => simp [run]
  | cons p queue ih =>
    rw [List.map_cons, run]
    by_cases h : matters ignored p
    · simp only [after, take, h, if_true]
      rw [ih (held ++ [p])]
      simp [h]
    · simp only [after, take, h]
      rw [if_neg (by decide), ih held]
      simp [h]

/-- A call during which nothing arrives takes the whole queue and keeps what matters of it,
in order; it goes on where nothing matters and more can come. -/
theorem nextBatch_eq (ignored : Path) (ch : Channel) :
    nextBatch ignored ch =
      (match ch.queue.filter (matters ignored) with
        | [] => if ch.closed then some .closed else none
        | changes => some (.paths changes),
        { ch with queue := [] }) := by
  obtain ⟨queue, closed⟩ := ch
  simp only [nextBatch, undisturbed, Collector.run_append, Collector.run_taken]
  cases closed <;> cases h : queue.filter (matters ignored) <;>
    simp [Collector.run, Collector.after, Collector.take, Collector.finish]

/-- So the changes that such a call ends with are what matters of the queue. -/
theorem nextBatch_eq_paths_iff {ignored : Path} {ch : Channel} {changes : List Path} :
    (nextBatch ignored ch).1 = some (.paths changes) ↔
      changes ≠ [] ∧ ch.queue.filter (matters ignored) = changes := by
  rw [nextBatch_eq]
  cases h : ch.queue.filter (matters ignored) with
  | nil => cases hc : ch.closed <;> simp [eq_comm]
  | cons p rest =>
    simp only [Option.some.injEq, Batch.paths.injEq]
    exact ⟨fun he => ⟨he ▸ List.cons_ne_nil p rest, he⟩, And.right⟩

end FileRoutes.Watch
