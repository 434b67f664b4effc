/-
# Autophagy.ReportHub.Collector — the collector of the log channel.

`collect_new_messages` of `automation/report_hub/collector.py` over `ReportStore`. A run drains the channel page by
page: each message becomes a row, keyed by its id, or a record of the quarantine log, and behind the page the
watermark moves to its last message. The statements of SQLite and the appends to the log are operations of their own.

A text with a lone surrogate can neither be bound nor encoded, so the statement raises before it does anything.
`collect` is told how many pages it may ask for; `none` is a run that has asked for all of them.
-/
import Autophagy.Effect.Outcome
import Autophagy.ReportHub.Report

namespace Autophagy.ReportHub

open Autophagy.Effect Autophagy.Python

/-- `PAGE_LIMIT` -/
def pageLimit : Nat := 100

/-- What the collector does outside itself. -/
inductive Op
  | watermark
  | messagesAfter (anchor : Nat)
  | utcNow
  | upsertReport (row : ReportRow)
  | appendQuarantine (record : QuarantineRecord)
  | setWatermark (id : Nat)
  deriving DecidableEq

@[reducible] def Res : Op → Type
  | .watermark => Option Nat
  | .messagesAfter _ => List Message
  | .utcNow => Moment
  | _ => Unit

/-- A part of the collector. -/
abbrev Act := Fallible Res Fault

def act (op : Op) : Act (Res op) := Fallible.act op

variable (F : Type) [PyFloat F] (hub : Hub)

/-- `upsert_report` -/
def upsertReport (row : ReportRow) : Act Unit :=
  if (row.texts F).all isScalarText then act (.upsertReport row) else Fallible.raise .unicode

/-- `_quarantine`, with the record made. -/
def quarantine (record : QuarantineRecord) : Act Unit :=
  if record.texts.all isScalarText then act (.appendQuarantine record) else Fallible.raise .unicode

/-- `_ingest_message` -/
def ingestMessage (message : Message) : Act Unit := do
  match ← Fallible.get (parseReport F hub message.content) with
  | some report => do
    let moment ← act .utcNow
    upsertReport F (rowOf hub message report moment)
  | none => do
    let moment ← act .utcNow
    quarantine (recordOf message moment)

/-- The messages of a page, one after the other. -/
def ingestPage : List Message → Act Unit
  | [] => pure ()
  | message :: page => do
    ingestMessage F hub message
    ingestPage page

/-- `sorted(page, key=lambda message: int(message["id"]))` -/
def sortPage (page : List Message) : List Message := page.insertionSort fun a b => a.id ≤ b.id

/-- `collect_new_messages`, with at most so many pages. -/
def collect (processed : Nat) : Nat → Act (Option Nat)
  | 0 => pure none
  | pages + 1 => do
    let anchor ← act .watermark
    let answer ← act (.messagesAfter (anchor.getD 0))
    match (sortPage answer).getLast? with
    | none => pure (some processed)
    | some last => do
      ingestPage F hub (sortPage answer)
      act (.setWatermark last.id)
      if answer.length < pageLimit then pure (some (processed + answer.length))
      else collect (processed + answer.length) pages

end Autophagy.ReportHub
