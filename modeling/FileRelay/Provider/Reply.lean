import FileRelay.Provider.Request

/-!
# What a provider answers

A reply carries nothing, the description of one entry, a page of a listing, or
bytes.  Listings and reads may be answered in several replies, whose contents are
put together in the order of their arrival.
-/

namespace FileRelay

/-- A point in time, counted from the start of 1970 in seconds and nanoseconds. -/
structure Timestamp where
  seconds : Nat
  nanos : Nat
  seconds_lt : seconds < Nat.pow 2 63 := by decide
  nanos_lt : nanos < Nat.pow 10 9 := by decide
deriving DecidableEq, Repr

instance : Inhabited Timestamp := ⟨{ seconds := 0, nanos := 0 }⟩

/-- The point in time given by 64-bit seconds and 32-bit nanoseconds.  Whole seconds
among the nanoseconds are carried over; there is no such point if the seconds no
longer fit a signed 64-bit number. -/
def Timestamp.ofParts? (seconds : UInt64) (nanos : UInt32) : Option Timestamp :=
  if h : seconds.toNat + nanos.toNat / Nat.pow 10 9 < Nat.pow 2 63 then
    some {
      seconds := seconds.toNat + nanos.toNat / Nat.pow 10 9
      nanos := nanos.toNat % Nat.pow 10 9
      seconds_lt := h
      nanos_lt := Nat.mod_lt _ (by decide) }
  else none

/-- The description of a file or directory. -/
structure EntryInfo where
  name : String
  isDirectory : Bool
  size : UInt64
  modified : Timestamp
  mimeType : Option String
deriving DecidableEq, Repr, Inhabited

/-- One line of a listing. -/
structure ListedEntry where
  name : String
  isDirectory : Bool
deriving DecidableEq, Repr, Inhabited

/-- A page of a listing.  A cursor means that there is more. -/
structure ListingPage where
  entries : List ListedEntry := []
  cursor : Option Cursor := none
deriving DecidableEq, Repr, Inhabited

/-- What a provider answers to a request it grants. -/
inductive Reply where
  | nothing
  | metadata (entry : EntryInfo)
  | listing (page : ListingPage)
  | data (bytes : List UInt8)
deriving DecidableEq, Repr, Inhabited

/-- Adds a reply to the page read so far.  The cursor of the last reply stands. -/
def ListingPage.append? (page : ListingPage) : Reply → Option ListingPage
  | .listing more => some ⟨page.entries ++ more.entries, more.cursor⟩
  | _ => none

/-- Adds a reply to the bytes read so far. -/
def appendData? (bytes : List UInt8) : Reply → Option (List UInt8)
  | .data more => some (bytes ++ more)
  | _ => none

end FileRelay
