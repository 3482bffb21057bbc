import TreeWalk.Text.Utf8

namespace TreeWalk

inductive StreamError where
  | notUtf8
  | full
  | flushRefused
deriving DecidableEq, Repr

namespace StreamError

def text : StreamError → String
  | notUtf8 => "stream did not contain valid UTF-8"
  | full => "output full"
  | flushRefused => "flush refused"

end StreamError

-- The characters still to be read, with `none` where the octets are not UTF-8.
structure Source where
  rest : List (Option Char)

namespace Source

def ofOctets (octets : List UInt8) : Source :=
  ⟨Text.decode octets⟩

def cutLine : List (Option Char) → List (Option Char) × List (Option Char)
  | [] => ([], [])
  | c :: rest =>
      if c = some '\n' then ([c], rest)
      else
        let (line, rest) := cutLine rest
        (c :: line, rest)

-- Reads a line with its line feed; at the end of the input it is empty. A line that is not UTF-8
-- is read too, but cannot be had.
def readLine : EStateM StreamError Source String := fun source =>
  let (line, rest) := cutLine source.rest
  match line.mapM id with
  | some characters => .ok (String.ofList characters) ⟨rest⟩
  | none => .error .notUtf8 ⟨rest⟩

end Source

-- The octets written so far, out of at most `limit` where there is one.
structure Sink where
  written : ByteArray
  limit : Option Nat
  refusesFlush : Bool

namespace Sink

def unlimited : Sink :=
  ⟨.empty, none, false⟩

def room (sink : Sink) (size : Nat) : Nat :=
  match sink.limit with
  | some limit => min size (limit - sink.written.size)
  | none => size

def append (sink : Sink) (octets : ByteArray) : Sink :=
  { sink with written := sink.written ++ octets }

def write (text : String) : EStateM StreamError Sink Unit := fun sink =>
  let octets := text.toUTF8
  let room := sink.room octets.size
  if room = octets.size then .ok () (sink.append octets)
  else .error .full (sink.append (octets.extract 0 room))

def flush : EStateM StreamError Sink Unit := fun sink =>
  if sink.refusesFlush then .error .flushRefused sink else .ok () sink

def textFrom (sink : Sink) (start : Nat) : String :=
  Text.decodeLossy (sink.written.extract start sink.written.size).toList

def text (sink : Sink) : String :=
  sink.textFrom 0

end Sink

end TreeWalk
