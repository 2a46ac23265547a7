import ChatLab.Foundation.PrefetchIterator
import ChatLab.Storage.Database

/-!
# The message repository

Messages are keyed by room, padded timestamp and identifier, and read newest
first, page by page. The reader resumes from the last key of a page by
seeking it and skipping one entry.

The reader keeps the slices that Badger's iterator hands to the callback of
`Value` and decodes them when the iterator is closed. With the default options
the iterator reads a hundred entries ahead, of the whole store below the key
sought, and fills an item that it has left with the next entry. The prefetch
goroutines are done when the iterator is closed. Superseded versions of a
key are left out: an iterator in reverse parses them as well, and no code deletes
a key at or below those of the messages.
-/

namespace ChatLab.Storage

open Foundation Foundation.Decimal Foundation.Pagination

structure DiskMessage where
  id : UUID
  room : Int
  author : String
  content : String
  atTime : Int
  toxicityScore : Float64
deriving DecidableEq

def fromDiskMessage (m : DiskMessage) : MessagePb where
  id := m.id.text
  room := m.room
  author := m.author
  content := m.content
  atTime := m.atTime
  toxicityScore := m.toxicityScore

def toDiskMessage (p : MessagePb) : Option DiskMessage :=
  (UUID.parse p.id.toList).map fun id =>
    { id := id, room := p.room, author := p.author, content := p.content, atTime := p.atTime,
      toxicityScore := p.toxicityScore }

@[simp] theorem toDiskMessage_fromDiskMessage (m : DiskMessage) :
    toDiskMessage (fromDiskMessage m) = some m := by
  simp [toDiskMessage, fromDiskMessage]

def roomStem (room : Int) : Key := messageStem ++ (decimal room ++ [':'])

def messageSuffix (m : DiskMessage) : Key :=
  padded 19 (unixNano m.atTime) ++ ':' :: m.id.string

/-- `msg:%d:%019d:%s`. -/
def messageKey (m : DiskMessage) : Key := roomStem m.room ++ messageSuffix m

inductive RepositoryError
  | marshal | unmarshal | invalidId
deriving DecidableEq, Repr

/-- The bytes of the records. `proto.Marshal` may refuse a message, for instance
for invalid UTF-8; one that it accepts is read back by `proto.Unmarshal`. -/
structure Wire where
  marshals : MessagePb → Bool
  bytes : Value → List UInt8
  unmarshal : List UInt8 → Option MessagePb
  unmarshal_bytes : ∀ p, marshals p = true → unmarshal (bytes (.message p)) = some p

def storeMessage (marshals : MessagePb → Bool) (db : DB) (m : DiskMessage) :
    Except RepositoryError DB :=
  if marshals (fromDiskMessage m) then
    .ok (db.insert (messageKey m) (.message (fromDiskMessage m)))
  else .error .marshal

/-- The `PrefetchSize` of `badger.DefaultIteratorOptions`. -/
def prefetchSize : Nat := 100

section Iterator

variable (wire : Wire)

def recordBytes (e : Key × Value) : Key × List UInt8 := (e.1, wire.bytes e.2)

def seekIterator (db : DB) (key : Key) : PrefetchIterator Key UInt8 :=
  PrefetchIterator.seek prefetchSize ((db.descendingFrom key).map (recordBytes wire))

/-- The iterator of `GetMessages` when its loop starts: after the seek and, with
a cursor, one `Next`. The options restrict it to no stem. -/
def messageIterator (db : DB) (stem : Key) (cursor : Option Key) : PrefetchIterator Key UInt8 :=
  let it := seekIterator wire db (seekKey stem cursor)
  if cursor.isSome && it.item.any fun e => stem.isPrefixOf e.1 then it.next else it

/-- The loop of `GetMessages`: it stops at the limit or at the first key
without the stem, and remembers the suffix of the last key taken. The values are
kept as the slices of the iterator's items. Each turn meets one more key, so the
number of keys bounds the turns. -/
def collectMessages (limitMessages : Option Int) (stem : Key) :
    Nat → PrefetchIterator Key UInt8 → List Slice → Key → SliceHeap UInt8 × List Slice × Key
  | 0, it, byteMessages, lastKey => (it.heap, byteMessages, lastKey)
  | turns + 1, it, byteMessages, lastKey =>
    match it.item with
    | none => (it.heap, byteMessages, lastKey)
    | some (k, value) =>
      if stem.isPrefixOf k then
        if limitMessages = some (byteMessages.length : Int) then (it.heap, byteMessages, lastKey)
        else
          collectMessages limitMessages stem turns it.next (byteMessages ++ [value])
            (k.drop stem.length)
      else (it.heap, byteMessages, lastKey)

def decodeMessage (value : List UInt8) : Except RepositoryError DiskMessage :=
  match wire.unmarshal value with
  | none => .error .unmarshal
  | some p =>
    match toDiskMessage p with
    | some m => .ok m
    | none => .error .invalidId

/-- What the transaction of `GetMessages` leaves behind: the kept slices, as they
read when the iterator is closed, and the last key. -/
def readMessages (limitMessages : Option Int) (db : DB) (room : Int) (cursor : Option Key) :
    List (List UInt8) × Key :=
  let it := messageIterator wire db (roomStem room) cursor
  let (heap, byteMessages, lastKey) :=
    collectMessages limitMessages (roomStem room) it.keys.length it [] []
  (byteMessages.map heap.read, lastKey)

/-- `GetMessages` returns a cursor with every page, the empty one included. -/
def getMessages (limitMessages : Option Int) (db : DB) (room : Int) (cursor : Option Key) :
    Except RepositoryError (List DiskMessage × Key) :=
  let (byteMessages, lastKey) := readMessages wire limitMessages db room cursor
  match byteMessages.mapM (decodeMessage wire) with
  | .ok messages => .ok (messages, lastKey)
  | .error e => .error e

end Iterator

end ChatLab.Storage
