import DevkitCommon.Kafkax.DeadLetter
import DevkitCommon.Lib.JSON

/-! A record parked and rebuilt, with the bytes of its key, its value and its headers. The
hooks of the producing client may put the trace into the headers of what is produced. -/
namespace DevkitCommon.Kafkax.DLQ
open JSON (bytes)

/- A nil slice is null in Kafka. -/
abbrev Data := Option JSON.Bytes

abbrev RecordHeaders := List (String × Data)

structure KRecord where
  topic : String
  key : Data
  value : Data
  headers : RecordHeaders
  partition : Nat
  offset : Nat
  timestamp : Int
  deriving DecidableEq, Repr

structure Place where
  partition : Nat
  offset : Nat
  timestamp : Int
  deriving DecidableEq, Repr

variable (hooks : RecordHeaders → RecordHeaders)

def park (service : String) (r : KRecord) (cause : String) (at' : Place) : KRecord :=
  ⟨r.topic ++ suffix,r.key,r.value,
    hooks (r.headers ++ [("error",some (bytes cause)),("source-topic",some (bytes r.topic)),
      ("consumer",some (bytes service))]),
    at'.partition,at'.offset,at'.timestamp⟩

def ownHeaders : List String := ["error","source-topic","consumer","replayed-from"]

def producers (headers : RecordHeaders) : RecordHeaders := headers.filter (fun h => !ownHeaders.contains h.1)

def replayRecord (source : String) (r : KRecord) : KRecord :=
  ⟨source,r.key,r.value,
    producers r.headers ++ [("replayed-from",some (bytes (r.topic ++ "@" ++ toString r.offset)))],
    r.partition,r.offset,r.timestamp⟩

structure ComesBack (r back : KRecord) : Prop where
  topic : back.topic = r.topic
  key : back.key = r.key
  value : back.value = r.value
  headers : ∃ origin, back.headers = r.headers ++ [("replayed-from",origin)]

def HooksQuiet (service : String) (r : KRecord) (cause : String) (at' : Place) : Prop :=
  producers (park hooks service r cause at').headers = producers (park id service r cause at').headers

section Claim
variable {hooks : RecordHeaders → RecordHeaders} {service cause source : String} {r : KRecord} {at' : Place}

theorem producersAll {headers : RecordHeaders} : producers headers = headers ↔ ∀ h ∈ headers, h.1 ∉ ownHeaders := by
  have keeps (h : String × Data) : (!ownHeaders.contains h.1) = true ↔ h.1 ∉ ownHeaders := by
    rw [Bool.not_eq_true',← Bool.not_eq_true,List.contains_iff_mem]
  exact List.filter_eq_self.trans (forall₂_congr (fun h _ => keeps h))

theorem producersTwice (headers : RecordHeaders) : producers (producers headers) = producers headers :=
  List.filter_eq_self.mpr (fun _ kept => (List.mem_filter.mp kept).2)

theorem producersParked : producers (park id service r cause at').headers = producers r.headers := by
  have dropped : producers [("error",some (bytes cause)),("source-topic",some (bytes r.topic)),
    ("consumer",some (bytes service))] = [] := rfl
  have both : producers (park id service r cause at').headers = producers r.headers ++ producers _ := List.filter_append _ _
  rw [both,dropped,List.append_nil]

theorem sourceOnly (same : source ++ suffix = (park hooks service r cause at').topic) : source = r.topic :=
  String.append_left_inj suffix |>.mp same

theorem parkedComesBack (service : String) (r : KRecord) (cause : String) (at' : Place) :
    (∀ source, source ++ suffix = (park hooks service r cause at').topic →
      ComesBack r (replayRecord source (park hooks service r cause at'))) ↔
    (∀ h ∈ r.headers, h.1 ∉ ownHeaders) ∧ HooksQuiet hooks service r cause at' := by
  rw [HooksQuiet,producersParked]
  constructor
  · intro back
    obtain ⟨origin,headers⟩ := (back r.topic rfl).headers
    have kept : producers (park hooks service r cause at').headers = r.headers := List.append_inj_left' headers rfl
    have plain : producers r.headers = r.headers := kept ▸ producersTwice _
    exact ⟨producersAll.mp plain,kept.trans plain.symm⟩
  · rintro ⟨plain,quiet⟩ source same
    have kept := quiet.trans (producersAll.mpr plain)
    exact ⟨sourceOnly same,rfl,rfl,_,congrArg (fun hs => hs ++ [_]) kept⟩

def errorHeader : KRecord := ⟨"events.order",none,some (bytes "\x7b\x7d"),[("error",some (bytes "E42"))],0,7,0⟩

theorem errorLost : ¬ (∀ source, source ++ suffix = (park id "report" errorHeader "no rows" ⟨0,3,0⟩).topic →
    ComesBack errorHeader (replayRecord source (park id "report" errorHeader "no rows" ⟨0,3,0⟩))) := by
  intro back
  obtain ⟨origin,headers⟩ := (back "events.order" rfl).headers
  have kept : producers (park id "report" errorHeader "no rows" ⟨0,3,0⟩).headers = errorHeader.headers :=
    List.append_inj_left' headers rfl
  exact absurd kept (by decide)

end Claim
section Tracing

/- What a text-map propagator does for each of its fields: the first header of the name gets
the value, or else there is one more. -/
def setHeader (k : String) (v : Data) : RecordHeaders → RecordHeaders
  | [] => [(k,v)]
  | h::rest => if h.1 = k then (k,v)::rest else h::setHeader k v rest

theorem setStays {k : String} {v : Data} {headers : RecordHeaders} :
    setHeader k v headers = headers ↔ headers.find? (fun h => h.1 = k) = some (k,v) := by
  induction headers with
  | nil => exact iff_of_false (fun same => nomatch same) (fun found => nomatch found)
  | cons h rest ih =>
    by_cases here : h.1 = k
    · rw [setHeader,if_pos here,List.find?_cons_of_pos (by simpa using here)]
      constructor
      · exact fun same => congrArg some (List.cons.inj same).1.symm
      · exact fun found => by rw [Option.some.inj found]
    · rw [setHeader,if_neg here,List.find?_cons_of_neg (by simpa using here),← ih]
      exact ⟨fun same => (List.cons.inj same).2,fun same => by rw [same]⟩

theorem setProducers {k : String} (plain : k ∉ ownHeaders) (v : Data) (headers : RecordHeaders) :
    producers (setHeader k v headers) = setHeader k v (producers headers) := by
  have keeps : (!ownHeaders.contains k) = true := by simpa using plain
  induction headers with
  | nil => exact List.filter_cons_of_pos keeps
  | cons h rest ih =>
    by_cases here : h.1 = k
    · have kept : (!ownHeaders.contains h.1) = true := here ▸ keeps
      have right : producers (h::rest) = h::producers rest := List.filter_cons_of_pos kept
      rw [setHeader,if_pos here,right,setHeader,if_pos here]
      exact List.filter_cons_of_pos keeps
    · rw [setHeader,if_neg here]
      by_cases kept : (!ownHeaders.contains h.1) = true
      · have left : producers (h::setHeader k v rest) = h::producers (setHeader k v rest) := List.filter_cons_of_pos kept
        have right : producers (h::rest) = h::producers rest := List.filter_cons_of_pos kept
        rw [left,right,setHeader,if_neg here,ih]
      · have left : producers (h::setHeader k v rest) = producers (setHeader k v rest) := List.filter_cons_of_neg kept
        have right : producers (h::rest) = producers rest := List.filter_cons_of_neg kept
        rw [left,right,ih]

theorem tracingQuiet {k : String} (plain : k ∉ ownHeaders) (v : Data) (service : String) (r : KRecord) (cause : String)
    (at' : Place) : HooksQuiet (setHeader k v) service r cause at' ↔
      (producers r.headers).find? (fun h => h.1 = k) = some (k,v) := by
  have parked : producers (park (setHeader k v) service r cause at').headers =
      setHeader k v (producers (park id service r cause at').headers) := setProducers plain v _
  rw [HooksQuiet,parked,producersParked,setStays]

end Tracing
section Letters

def Letter.record (l : Letter) (source : String) : KRecord :=
  ⟨source ++ suffix,some (bytes l.key),some (bytes l.value),l.headers.map (fun h => (h.1,some (bytes h.2))),l.partition,l.offset,0⟩

theorem letterParked (call : Call) (source : String) (partition offset : Nat) (cause : String) :
    (call.letter source partition offset cause).record source = park id call.service
      ⟨source,some (bytes call.original.key),some (bytes call.original.value),
        call.original.headers.map (fun h => (h.1,some (bytes h.2))),0,0,0⟩ cause ⟨partition,offset,0⟩ := by
  unfold Letter.record Call.letter parkHeaders park
  rw [List.map_append]
  rfl

theorem letterRebuilt (l : Letter) (source : String) :
    (replayRecord source (l.record source)).headers =
      (rebuilt source l).headers.map (fun h => (h.1,some (bytes h.2))) := by
  unfold replayRecord Letter.record rebuilt producers
  rw [List.map_append,List.filter_map]
  rfl

end Letters
end DevkitCommon.Kafkax.DLQ
