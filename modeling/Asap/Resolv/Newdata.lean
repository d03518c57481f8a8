import Asap.Ipv6.SourceRouting
import Asap.Resolv.Names

/-!
# Messages that arrive at the resolver

The resolver keeps a table of names with their addresses. A message with answers to a query is found
by its identifier, and a multicast answer by its name; where the name is not in the table, it is
written into an entry that is free or has expired, and behind the table where there is none.

## Main definitions

* `NameMap`, `Resolver` — an entry, and what the resolver keeps.
* `newdata` — a message, with what is read of it and what is written.
-/

namespace Asap.Resolv

open Lib Ipv6

/-- The states of an entry. -/
inductive NameState
  | unused
  | error
  | new
  | asking
  | done
deriving DecidableEq

/-- `struct namemap`, with its name as a string. -/
structure NameMap where
  state : NameState
  id : BitVec 16
  retries : BitVec 8
  expiration : ℕ
  ipaddr : UipIpaddr
  err : Byte
  server : BitVec 8
  name : List Byte

/-- `RESOLV_CONF_MAX_DOMAIN_NAME_SIZE`, the number of values of an `unsigned long`, the name servers
that there are, the time in seconds, whether `mdns_state` is `MDNS_STATE_READY`, and what
`resolv_found` makes of the host name when another node has it. -/
structure ResolvConfig where
  maxName : ℕ
  longValues : ℕ
  nameserver : BitVec 8 → Bool
  clockSeconds : ℕ
  ready : Bool
  renamed : List Byte → List Byte

/-- `names` and `resolv_hostname`. -/
structure Resolver where
  names : List NameMap
  hostname : List Byte

/-- A message, and whether it is from `MDNS_PORT`. -/
structure DnsMsg where
  mem : ℕ → Byte
  len : ℕ
  mdnsPort : Bool

/-- An entry is written: its place, what it has been, the bytes that are written to its name, and
for a multicast answer where its name is. -/
structure NameWrite where
  index : ℕ
  entry : Option NameMap
  bytes : List Byte
  answer : Option ℕ

section

variable (cfg : ResolvConfig) (mem : ℕ → Byte)

/-! ## What a message has -/

/-- A word of a message. -/
def word (pos : ℕ) : BitVec 16 := mem pos ++ mem (pos + 1)

/-- Places that are read one after the other. -/
def readsAt (pos n : ℕ) : List ℕ := (List.range n).map (pos + ·)

theorem bytesAt_length (pos n : ℕ) :
    ((List.range n).map fun i => mem (pos + i)).length = n := by
  rw [List.length_map, List.length_range]

/-- Bytes of a message. -/
def bytesAt (pos n : ℕ) : Octets n :=
  ⟨(List.range n).map fun i => mem (pos + i), bytesAt_length mem pos n⟩

/-- `is_request` -/
def isRequest : Bool := mem 2 &&& 0xFE = 0 ∧ mem 3 = 0

/-- `DNS_FLAG1_RESPONSE` is set. -/
def isResponse : Bool := mem 2 &&& 0x80 ≠ 0

/-- A question for addresses, in the class of the internet. -/
def questionOk (pos : ℕ) : Bool :=
  word mem (pos + 2) &&& 0x7FFF = 1 ∧ (word mem pos = 255 ∨ word mem pos = 28)

/-- An answer with an address. -/
def answerOk (pos : ℕ) : Bool :=
  word mem (pos + 2) &&& 0x7FFF = 1 ∧ word mem (pos + 8) = 16 ∧ word mem pos = 28

/-- Where the answer behind one begins. -/
def nextAnswer (pos : ℕ) : ℕ := pos + 10 + (word mem (pos + 8)).toNat

/-! ## Questions -/

/-- The questions of a message, from one on: where the answers begin, unless the message has been
answered. A name that has been gone through is gone through again, which is left out. -/
def questions (hostname : List Byte) (fuel : ℕ) : ℕ → ℕ → Option (Option ℕ × List ℕ)
  | 0, pos => some (some pos, [])
  | n + 1, pos =>
    match skipName mem fuel pos with
    | none => none
    | some (stop, nameReads) =>
      if isRequest mem then
        let reads := nameReads ++ readsAt stop 4
        if questionOk mem stop then
          let equal := dnsNameIsequal mem pos hostname
          if equal.1 ∧ cfg.ready then some (none, reads ++ equal.2)
          else
            (questions hostname fuel n (stop + 4)).map fun rest =>
              (rest.1, reads ++ equal.2 ++ (if equal.1 then readsAt 8 2 else []) ++ rest.2)
        else (questions hostname fuel n (stop + 4)).map fun rest => (rest.1, reads ++ rest.2)
      else (questions hostname fuel n (stop + 4)).map fun rest => (rest.1, nameReads ++ rest.2)

/-! ## Entries -/

/-- An entry that a multicast answer may take. -/
def NameMap.available (e : NameMap) : Bool :=
  e.state = .unused ∨ (e.state = .done ∧ e.expiration < cfg.clockSeconds)

/-- An entry with the address of an answer. -/
def NameMap.answered (e : NameMap) (pos : ℕ) : NameMap :=
  { e with
    state := .done
    expiration := ((word mem (pos + 4) ++ word mem (pos + 6)).toNat + cfg.clockSeconds) %
      cfg.longValues
    ipaddr := bytesAt mem (pos + 10) 16 }

/-- An entry whose query has been answered with an error, so far. -/
def NameMap.failed (e : NameMap) : NameMap :=
  { e with
    state := .error
    err := mem 3 &&& 0x0F
    expiration := (cfg.clockSeconds + 30) % cfg.longValues }

/-- The end of `newdata`, with `try_next_server`: the query is asked again where there is another
name server. -/
def NameMap.asksNext (e : NameMap) : NameMap :=
  if cfg.nameserver (e.server + 1) then
    { e with server := e.server + 1, retries := 0, state := .asking }
  else { e with server := 0 }

/-- Bytes are written to the name of an entry, and a zero. -/
def NameMap.withName (e : NameMap) (bytes : List Byte) : NameMap :=
  { e with name := bytes.takeWhile (· ≠ 0) }

/-- Where a name is in the table, and the last place that is available before it. -/
structure Lookup where
  found : Option ℕ
  available : ℕ
  reads : List ℕ

/-- The search for the name of an answer, from an entry on. -/
def lookup (pos : ℕ) : List NameMap → ℕ → ℕ → Lookup
  | [], _, available => ⟨none, available, []⟩
  | e :: names, i, available =>
    let equal := dnsNameIsequal mem pos e.name
    if equal.1 then ⟨some i, available, equal.2⟩
    else
      let rest := lookup pos names (i + 1) (if e.available cfg then i else available)
      { rest with reads := equal.2 ++ rest.reads }

/-! ## Answers -/

/-- What has become of the table, what has been read and written, and whether there has been an
answer that can be used. -/
structure NewdataRun where
  names : List NameMap
  reads : List ℕ
  writes : List NameWrite
  usable : Bool

/-- What has been read and written before. -/
def NewdataRun.after (reads : List ℕ) (writes : List NameWrite) (run : NewdataRun) : NewdataRun :=
  { run with reads := reads ++ run.reads, writes := writes ++ run.writes }

/-- The answers of a message, from one on: for the query of an entry, or for any names. -/
def answers (target : Option (ℕ × Option NameMap)) (fuel : ℕ) :
    ℕ → ℕ → List Byte → List NameMap → Option NewdataRun
  | 0, _, _, names => some ⟨names, [], [], false⟩
  | n + 1, pos, hostname, names =>
    match skipName mem fuel pos with
    | none => none
    | some (stop, nameReads) =>
      let reads := nameReads ++ readsAt stop 26
      let next := nextAnswer mem stop
      if answerOk mem stop then
        match target with
        | some (i, entry) =>
          some ⟨names.modify i (·.answered cfg mem stop), reads, [⟨i, entry, [], none⟩], true⟩
        | none =>
          let found := lookup cfg mem pos names 0 names.length
          let reads := reads ++ found.reads
          match found.found with
          | some i =>
            some ⟨names.modify i (·.answered cfg mem stop), reads,
              [⟨i, names[i]?, [], some pos⟩], true⟩
          | none =>
            let i := found.available
            let decoded := decodeName mem cfg.maxName pos
            let named := names.modify i (·.withName decoded.bytes)
            let write : NameWrite := ⟨i, names[i]?, decoded.bytes, some pos⟩
            let reads := reads ++ decoded.reads
            if decoded.fits then
              if i = names.length then
                let mine := dnsNameIsequal mem pos hostname
                let hostname := if mine.1 then cfg.renamed hostname else hostname
                (answers target fuel n next hostname named).map (.after (reads ++ mine.2) [write])
              else some ⟨named.modify i (·.answered cfg mem stop), reads, [write], true⟩
            else (answers target fuel n next hostname named).map (.after reads [write])
      else (answers target fuel n next hostname names).map (.after reads [])

/-! ## The message -/

/-- What is read of the header before the questions. -/
def headerReads : List ℕ := readsAt 2 6

/-- The entry of a query. -/
def asked (names : List NameMap) : Option ℕ :=
  names.findIdx? fun e => e.state = .asking ∧ e.id = word mem 0

end

section

variable (cfg : ResolvConfig) (msg : DnsMsg) (st : Resolver)

/-- The answers to a query. -/
def unicastAnswers (fuel pos i : ℕ) :
    Option NewdataRun :=
  let mem := msg.mem
  let failed := st.names.modify i (·.failed cfg mem)
  let write : NameWrite := ⟨i, st.names[i]?, [], none⟩
  if mem 3 &&& 0x0F ≠ 0 then some ⟨failed, [], [write], false⟩
  else
    (answers cfg mem (some (i, st.names[i]?)) fuel (mem 7).toNat pos st.hostname failed).map
      fun run =>
        { run with
          names :=
            if !run.usable && !msg.mdnsPort && word mem 0 ≠ 0 then
              run.names.modify i (·.asksNext cfg)
            else run.names
          writes := write :: run.writes }

/-- The part of `newdata` behind the questions. -/
def newdataAnswers (fuel pos : ℕ) :
    Option NewdataRun :=
  let mem := msg.mem
  if mem 7 = 0 then some ⟨st.names, [], [], false⟩
  else if msg.mdnsPort ∧ word mem 0 = 0 then
    (answers cfg mem none fuel (mem 7).toNat pos st.hostname st.names).map
      (.after (readsAt 0 2) [])
  else
    match asked mem st.names with
    | none => some ⟨st.names, readsAt 0 2, [], false⟩
    | some i => (unicastAnswers cfg msg st fuel pos i).map (.after (readsAt 0 2) [])

/-- `newdata`; going through a name is given up after a number of labels. -/
def newdata (fuel : ℕ) : Option NewdataRun :=
  let mem := msg.mem
  if isRequest mem ∧ mem 5 = 0 then some ⟨st.names, headerReads, [], false⟩
  else
    match questions cfg mem st.hostname fuel (mem 5).toNat 12 with
    | none => none
    | some (none, reads) => some ⟨st.names, headerReads ++ reads, [], false⟩
    | some (some pos, reads) =>
      (newdataAnswers cfg msg st fuel pos).map (.after (headerReads ++ reads) [])

end

end Asap.Resolv
