/-! Bytes that arrive in pieces. A source answers each request with a piece of its bytes or with
an interruption, and ends by being finished or by failing for good. Every read states a demand; it
draws exactly the bytes that meet the demand, asks again after an interruption, and fails only
when a byte it still needs does not come. -/
namespace OptimizedLookup

/-- What kind of failure a source reports. Only the kind that means the end of the input is told
apart by readers. -/
inductive FaultKind where
  | unexpectedEnd
  | invalidData
  | named (name : String)
  deriving DecidableEq

def FaultKind.name : FaultKind → String
  | .unexpectedEnd => "UnexpectedEof"
  | .invalidData => "InvalidData"
  | .named name => name

structure IoFault where
  kind : FaultKind
  text : String
  deriving DecidableEq

inductive Reply where
  | piece (bytes : List UInt8)
  | interrupted
  deriving DecidableEq

def Reply.bytes : Reply → List UInt8
  | .piece bytes => bytes
  | .interrupted => []

inductive Ending where
  | finished
  | failed (fault : IoFault)
  deriving DecidableEq

/-- A source part of whose bytes may have been fetched and not yet read. -/
structure Source where
  fetched : List UInt8
  replies : List Reply
  ending : Ending
  deriving DecidableEq

namespace Source

def ofBytes (bytes : List UInt8) : Source := ⟨bytes, [], .finished⟩

def contents (source : Source) : List UInt8 :=
  source.fetched ++ source.replies.flatMap Reply.bytes

end Source

inductive Demand where
  | exactly (count : Nat)
  | throughNul
  deriving DecidableEq

namespace Demand

def met : Demand → Bool
  | .exactly 0 => true
  | _ => false

def after : Demand → UInt8 → Demand
  | .exactly count, _ => .exactly (count - 1)
  | .throughNul, byte => if byte = 0 then .exactly 0 else .throughNul

/-- Moves bytes onto `taken`, the latest first, until the demand is met or they run out. Returns
what is left of the demand, what was taken and what was not. -/
def draw : Demand → (taken bytes : List UInt8) → Demand × List UInt8 × List UInt8
  | demand, taken, [] => (demand, taken, [])
  | demand, taken, byte :: rest =>
    if demand.met then (demand, taken, byte :: rest)
    else (demand.after byte).draw (byte :: taken) rest

theorem draw_append {demand left : Demand} {taken first more unread : List UInt8}
    (drawn : demand.draw taken first = (left, more, unread)) (second : List UInt8) :
    demand.draw taken (first ++ second) =
      if left.met then (left, more, unread ++ second) else left.draw more second := by
  induction first generalizing demand taken with
  | nil =>
    cases drawn
    cases second with
    | nil => simp [draw]
    | cons byte rest => cases met : left.met <;> simp [draw, met]
  | cons byte rest ih =>
    rw [draw] at drawn
    rw [List.cons_append, draw]
    split at drawn
    · next met =>
      cases drawn
      simp [met]
    · next unmet =>
      rw [if_neg unmet]
      exact ih drawn

end Demand

namespace Source

def readFrom (ending : Ending) : List Reply → Demand → (taken fetched : List UInt8) →
    Except Ending (List UInt8 × Source)
  | replies, demand, taken, fetched =>
    match demand.draw taken fetched with
    | (left, taken, unread) =>
      if left.met then .ok (taken.reverse, ⟨unread, replies, ending⟩)
      else match replies with
        | [] => .error ending
        | reply :: replies => readFrom ending replies left taken reply.bytes

def read (source : Source) (demand : Demand) : Except Ending (List UInt8 × Source) :=
  readFrom source.ending source.replies demand [] source.fetched

/-- A read goes by the bytes and not by the pieces they come in: it draws from the replies what it
would draw from all of them at once. -/
theorem readFrom_eq_draw {ending : Ending} {replies : List Reply} {demand left : Demand}
    {taken fetched more unread : List UInt8}
    (drawn : demand.draw taken (fetched ++ replies.flatMap Reply.bytes) = (left, more, unread)) :
    if left.met then
      ∃ rest, readFrom ending replies demand taken fetched = .ok (more.reverse, rest) ∧
        rest.contents = unread ∧ rest.ending = ending
    else readFrom ending replies demand taken fetched = .error ending := by
  induction replies generalizing demand taken fetched with
  | nil =>
    simp only [List.flatMap_nil, List.append_nil] at drawn
    rw [readFrom, drawn]
    cases met : left.met <;> simp [contents, met]
  | cons reply replies ih =>
    generalize first : demand.draw taken fetched = result
    obtain ⟨next, moved, unmoved⟩ := result
    rw [Demand.draw_append first] at drawn
    rw [readFrom, first]
    by_cases met : next.met
    · rw [if_pos met] at drawn
      cases drawn
      simp [contents, met]
    · rw [if_neg met, List.flatMap_cons] at drawn
      simpa [met] using ih drawn

end Source

end OptimizedLookup
