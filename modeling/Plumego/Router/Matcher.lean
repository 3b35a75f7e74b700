/-
Module: Plumego.Router.Matcher
Purpose: The segment trie of one HTTP method with its parallel `indices` and `children`, the
  cache of route matches with its ring buffer of keys, and `matchNode`, the greedy walk of a
  request path down a method tree.
Trusted boundary: none
Main exports: MatchResult, MatchCache, Node, insertChild, matchLoop, matchNode
-/
import Plumego.Go.Maps
import Plumego.Router.Path

namespace Plumego.Router

open Go

/-- `matchResult`: what one route match dispatches with. -/
structure MatchResult (H : Type) where
  handler : H
  paramValues : List Bytes := []
  paramKeys : List Bytes := []
  routePattern : Bytes
  routeMethod : Bytes := []
  routeName : Bytes
deriving DecidableEq, Repr

/-- `matchCache`. `ring` is a circular buffer of `capacity` keys, `head` the
position of the oldest one and `size` the number of live ones. -/
structure MatchCache (H : Type) where
  capacity : Nat
  data : StringMap (MatchResult H) := ∅
  ring : List Bytes
  head : Nat := 0
  size : Nat := 0

/-- `defaultCacheCapacity`. -/
def defaultCacheCapacity : Nat := 100

/-- `newMatchCache`; a non-positive capacity falls back to the default. -/
def newMatchCache (H : Type) (capacity : Int) : MatchCache H :=
  let capacity := if capacity ≤ 0 then defaultCacheCapacity else capacity.toNat
  { capacity := capacity, ring := List.replicate capacity [] }

namespace MatchCache

variable {H : Type}

/-- `matchCache.Get`. -/
def get (cache : MatchCache H) (key : Bytes) : Option (MatchResult H) :=
  cache.data.lookup key

/-- `matchCache.Set`. -/
def set (cache : MatchCache H) (key : Bytes) (value : MatchResult H) :
    MatchCache H :=
  if (cache.data.lookup key).isSome then
    { cache with data := cache.data.insert key value }
  else if cache.capacity ≤ cache.size then
    -- evict the oldest entry via the ring-buffer head
    let oldest := cache.ring.getD cache.head []
    { cache with
      data := (cache.data.erase oldest).insert key value
      ring := cache.ring.set cache.head key
      head := (cache.head + 1) % cache.capacity }
  else
    let tail := (cache.head + cache.size) % cache.capacity
    { cache with
      data := cache.data.insert key value
      ring := cache.ring.set tail key
      size := cache.size + 1 }

/-- `matchCache.Clear`. -/
def clear (cache : MatchCache H) : MatchCache H :=
  { cache with
    data := ∅
    ring := List.replicate cache.capacity []
    head := 0
    size := 0 }

/-- The keys in the live ring slots, oldest first: `size` slots starting at
`head`, wrapping around. -/
def liveSlots (cache : MatchCache H) : List Bytes :=
  (List.range cache.size).map fun offset =>
    cache.ring.getD ((cache.head + offset) % cache.capacity) []

end MatchCache

/-! ## The segment trie -/

/-- A node of the trie. `indices` holds one entry of first-byte text per child
and is searched in place of the child paths. -/
structure Node (H : Type) where
  path : Bytes := []
  paramName : Bytes := []
  fullPath : Bytes := []
  indices : Bytes := []
  children : List (Node H) := []
  handler : Option H := none
  paramKeys : List Bytes := []
  routeName : Bytes := []
deriving Inhabited

variable {H : Type}

/-- The run of the indexed lookup: from position `index` on, as long as the
index byte is `first`, compare the child path. -/
def scanRun (first : UInt8) (path : Bytes) :
    Nat → Bytes → List (Node H) → Option Nat
  | index, byte :: bytes, child :: children =>
    if byte = first then
      if child.path = path then some index
      else scanRun first path (index + 1) bytes children
    else none
  | _, _, _ => none

/-- Position of the child `findStaticChild` returns. Three or more children
are searched through `indices`, fewer by a scan over the paths. -/
def findStaticIndex (parent : Node H) (path : Bytes) : Option Nat :=
  if parent.children = [] then none
  else if parent.children.length ≤ 2 then
    parent.children.findIdx? (·.path == path)
  else
    match parent.indices, path with
    | _ :: _, first :: _ =>
      (parent.indices.findIdx? (· == first)).bind fun index =>
        scanRun first path index (parent.indices.drop index)
          (parent.children.drop index)
    | _, _ => parent.children.findIdx? (·.path == path)

/-- `findStaticChild`. -/
def findStaticChild (parent : Node H) (path : Bytes) : Option (Node H) :=
  (findStaticIndex parent path).bind fun index => parent.children[index]?

/-- Position of the child `findChildByByte` returns. -/
def findIndexByByte (parent : Node H) (byte : UInt8) : Option Nat :=
  if parent.children = [] then none
  else if parent.indices ≠ [] then
    (parent.indices.findIdx? (· == byte)).bind fun index =>
      if index < parent.children.length then some index else none
  else parent.children.findIdx? fun child => child.path.head? == some byte

/-- `findChildByByte`. -/
def findChildByByte (parent : Node H) (byte : UInt8) : Option (Node H) :=
  (findIndexByByte parent byte).bind fun index => parent.children[index]?

/-- `findParamChild`. -/
def findParamChild (parent : Node H) : Option (Node H) :=
  findChildByByte parent colon

/-- `findWildChild`. -/
def findWildChild (parent : Node H) : Option (Node H) :=
  findChildByByte parent star

/-- `string(b)` of a byte: the UTF-8 encoding of the code point `b`, which is
two bytes long from `0x80` on. -/
def stringOfByte (byte : UInt8) : Bytes :=
  if byte < 0x80 then [byte]
  else [(0xC0 : UInt8) ||| (byte >>> 6), (0x80 : UInt8) ||| (byte &&& 0x3F)]

/-- The insertion loop: skip the index bytes that are at most `first`. -/
def insertPosition (indices : Bytes) (first : UInt8) : Nat :=
  (indices.takeWhile (· ≤ first)).length

/-- `insertChild`, returning the updated parent and the position of the new
child. `none` is a runtime panic: an empty child path, or a slice of
`children` beyond its length. -/
def insertChild (parent child : Node H) : Option (Node H × Nat) :=
  match child.path with
  | [] => none
  | first :: _ =>
    let index := insertPosition parent.indices first
    let indices := parent.indices.take index ++ stringOfByte first ++
      parent.indices.drop index
    if parent.children.length < index then none
    else
      some ({ parent with
        indices := indices
        children := parent.children.take index ++
          child :: parent.children.drop index }, index)

/-! ## The walk -/

/-- Byte offset of `parts[i]` in the normalised path: the leading slash and,
for each earlier part, its length and one separator. -/
def segmentOffset (parts : List Bytes) (index : Nat) : Nat :=
  (parts.take index).foldl (fun off part => off + (part.length + 1)) 1

/-- The loop of `matchNode` from iteration `index` on: the node it ends at and
the parameter values collected, `none` where the source returns nil. -/
def matchLoop (parts : List Bytes) (rawPath : Bytes) :
    Nat → Node H → List Bytes → List Bytes → Option (Node H × List Bytes)
  | _, current, paramValues, [] => some (current, paramValues)
  | index, current, paramValues, pathSegment :: rest =>
    if pathSegment = [] then none
    else
      match findStaticChild current pathSegment with
      | some child => matchLoop parts rawPath (index + 1) child paramValues rest
      | none =>
        match findParamChild current with
        | some paramChild =>
          matchLoop parts rawPath (index + 1) paramChild
            (paramValues ++ [pathSegment]) rest
        | none =>
          match findWildChild current with
          | some wildChild =>
            some (wildChild, paramValues ++
              [rawPath.drop (segmentOffset parts index)])
          | none => none

/-- The result for the node the walk ends at, nil without a handler. -/
def resultOf (found : Node H × List Bytes) : Option (MatchResult H) :=
  found.1.handler.map fun handler =>
    { handler := handler
      paramValues := found.2
      paramKeys := found.1.paramKeys
      routePattern := found.1.fullPath
      routeName := found.1.routeName }

/-- `matchNode` on an existing tree. The result's method is filled in by the
caller. -/
def matchNode (root : Node H) (parts : List Bytes) (rawPath : Bytes) :
    Option (MatchResult H) :=
  (matchLoop parts rawPath 0 root [] parts).bind resultOf

end Plumego.Router
