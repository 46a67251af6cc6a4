import Wellbore.Time.Reader
import Wellbore.Time.Text
import Wellbore.Json.Document
import Wellbore.Word

/-!
# Report headers and row addresses

A record is a flat list of rows of one width, grouped into blocks of equally many
rows: one block for each well. The widths and the block sizes come from the
header and are not to be trusted, so an address that does not fit 64 bits counts
as an address past every record.
-/

namespace Wellbore

/-- When a report was written and how its records are laid out. -/
structure ReportHeader where
  reportStep : Int32
  simTime : Instant
  /-- Integers in the row of a well. -/
  wellWidth : Nat
  /-- Rows in the block of a segmented well. -/
  maxSegments : Nat
  /-- Integers in the row of a segment. -/
  segmentWidth : Nat
  /-- Reals in the row of a segment. -/
  segmentRealWidth : Nat
  /-- Connection rows in the block of a well. -/
  maxConnections : Nat
  /-- Integers in the row of a connection. -/
  connectionWidth : Nat
  /-- Reals in the row of a connection. -/
  connectionRealWidth : Nat
deriving DecidableEq, Repr, Inhabited

/-- An address, if 64 bits hold it. -/
def address? (n : Nat) : Option Nat := Word.unsigned64? n

/-- The address past every record. -/
def beyond : Nat := UInt64.size - 1

/-- Where row `row` of block `block` begins, every step of the computation being
kept within 64 bits. -/
def rowStart? (block rowsPerBlock row width : Nat) : Option Nat := do
  let first ← address? (block * rowsPerBlock)
  let nth ← address? (first + row)
  address? (nth * width)

namespace ReportHeader

def wellStart? (h : ReportHeader) (well : Nat) : Option Nat :=
  address? (well * h.wellWidth)

def segmentStart? (h : ReportHeader) (block row : Nat) : Option Nat :=
  rowStart? block h.maxSegments row h.segmentWidth

def segmentRealStart? (h : ReportHeader) (block row : Nat) : Option Nat :=
  rowStart? block h.maxSegments row h.segmentRealWidth

def connectionStart? (h : ReportHeader) (well row : Nat) : Option Nat :=
  rowStart? well h.maxConnections row h.connectionWidth

def connectionRealStart? (h : ReportHeader) (well row : Nat) : Option Nat :=
  rowStart? well h.maxConnections row h.connectionRealWidth

def fieldNames : List String :=
  ["report_step", "sim_time", "niwelz", "nsegmx", "nisegz", "nrsegz", "ncwmax", "niconz",
    "nsconz"]

def read? (v : Json) : Option ReportHeader := do
  match ← Document.alignedTo fieldNames v with
  | [step, time, niwelz, nsegmx, nisegz, nrsegz, ncwmax, niconz, nsconz] =>
    let step ← Document.required Document.integer? step
    let time ← Document.required (fun v : Json => (Document.text? v).bind Instant.parse?) time
    let niwelz ← Document.required Document.natural? niwelz
    let nsegmx ← Document.required Document.natural? nsegmx
    let nisegz ← Document.required Document.natural? nisegz
    let nrsegz ← Document.required Document.natural? nrsegz
    let ncwmax ← Document.required Document.natural? ncwmax
    let niconz ← Document.required Document.natural? niconz
    let nsconz ← Document.required Document.natural? nsconz
    return ⟨step, time, niwelz, nsegmx, nisegz, nrsegz, ncwmax, niconz, nsconz⟩
  | _ => none

def toJson (h : ReportHeader) : Json :=
  .obj [("report_step", .word h.reportStep), ("sim_time", .str h.simTime.text),
    ("niwelz", .nat h.wellWidth), ("nsegmx", .nat h.maxSegments),
    ("nisegz", .nat h.segmentWidth), ("nrsegz", .nat h.segmentRealWidth),
    ("ncwmax", .nat h.maxConnections), ("niconz", .nat h.connectionWidth),
    ("nsconz", .nat h.connectionRealWidth)]

end ReportHeader

end Wellbore
