import RustyTls.MutualAgreement

/-!
# RustyTls.Duplex

The two ends of an established connection, with an active network between them.

Either end writes when it likes, and the network passes either of them whatever byte string it
likes. The AEAD is ideal: it opens what was sealed under the same key, nonce and additional data, by
whichever end. Each direction is a `Lane`, which keeps the invariant of a record channel over the
encryptions under its own key, so that what one direction does leaves the other alone.
-/

namespace RustyTls

open Core

/-! ### One direction -/

/-- An opener asks the AEAD about nothing but its own key. -/
theorem openRecord_congr {ring ring' : Ring} {opener : Opener}
    (h : ∀ nonce aad ciphertext, ring.openInPlace opener.key.alg.ringAlgorithm opener.key.key nonce
        aad ciphertext
      = ring'.openInPlace opener.key.alg.ringAlgorithm opener.key.key nonce aad ciphertext)
    (record : Bytes) : opener.openRecord ring record = opener.openRecord ring' record := by
  simp only [Opener.openRecord, Opener.opening, h]

/-- The type of an opened record is that of an octet. -/
theorem openRecord_typ {ring : Ring} {opener opener' : Opener} {record : Bytes} {opened : Opened}
    (h : opener.openRecord ring record = (.ok opened, opener')) :
    opened = ⟨.fromU8 opened.typ.asU8, opened.fragment⟩ := by
  unfold Opener.openRecord at h
  split at h
  · next opened' seq hopening =>
      obtain ⟨rfl, -⟩ : opened' = opened ∧ { opener with seq := .advance seq } = opener' := by
        simpa using h
      simp only [Opener.opening, bind_eq_ok, refuse_eq_ok, okOr_eq_ok] at hopening
      obtain ⟨-, -, -, -, -, -, -, -, -, -, _, -, _, -, ⟨typ, content⟩, -, -, -, heq⟩ := hopening
      obtain ⟨rfl, -⟩ : Opened.mk (.fromU8 typ) content = opened' ∧ _ := by simpa using heq
      simp
  · exact absurd h (by simp)

/-- What was sealed under other keys does not matter. -/
theorem ideal_filter (ring : Ring) (table : List AeadSeal) (alg : AeadAlgorithm)
    (key nonce aad ciphertext : Bytes) :
    (ring.ideal table).openInPlace alg key nonce aad ciphertext
      = (ring.ideal (table.filter (·.key = key))).openInPlace alg key nonce aad ciphertext := by
  simp only [Ring.ideal, List.find?_filter]
  congr 2
  funext e
  by_cases hkey : e.key = key <;> simp [hkey]

/-- The ideal AEAD leaves the key derivation as it is. -/
theorem hkdfExpandLoop_ideal (ring : Ring) (table : List AeadSeal) (hash : Hash) (prk info : Bytes)
    (length : Nat) : ∀ (fuel : Nat) (counter : UInt8) (previous output : Bytes),
    hkdfExpandLoop (ring.ideal table) hash prk info length fuel counter previous output
      = hkdfExpandLoop ring hash prk info length fuel counter previous output := by
  intro fuel
  induction fuel with
  | zero => exact fun _ _ _ => rfl
  | succ fuel ih =>
      intro counter previous output
      simp only [hkdfExpandLoop, ih]
      rfl

theorem expandLabel_ideal (ring : Ring) (table : List AeadSeal) (hash : Hash) (secret : Bytes)
    (label : String) (context : Bytes) (length : Nat) :
    expandLabel (ring.ideal table) hash secret label context length
      = expandLabel ring hash secret label context length := by
  rw [expandLabel, expandLabel, hkdfExpand, hkdfExpand, hkdfExpandLoop_ideal]

/-- One direction of a connection: the encryptions under its key, its two halves, the records it
has carried, what they hold, and how many of them have been opened. -/
structure Lane (key : DirectionKey) (table : List AeadSeal) (sealer : Sealer) (opener : Opener)
    (records : List Bytes) (sent : List (UInt8 × Bytes)) (n : Nat) : Prop where
  inv : Channel.Inv key 0
    ⟨sealer, opener, table.filter (·.key = key.key), records, sent, sent.take n⟩
  opened : n ≤ sent.length

namespace Lane

variable {ring : Ring} {key : DirectionKey} {table : List AeadSeal} {sealer : Sealer}
  {opener : Opener} {records : List Bytes} {sent : List (UInt8 × Bytes)} {n : Nat}

theorem take_length (h : Lane key table sealer opener records sent n) : (sent.take n).length = n :=
  List.length_take_of_le h.opened

/-- A fresh direction, with whatever was sealed under other keys. -/
theorem fresh (key : DirectionKey) (hothers : ∀ e ∈ table, e.key ≠ key.key) :
    Lane key table ⟨key, .startingAt 0⟩ ⟨key, .startingAt 0⟩ [] [] 0 := by
  have hnone : table.filter (·.key = key.key) = [] := by
    simpa [List.filter_eq_nil_iff] using hothers
  refine ⟨?_, Nat.le_refl 0⟩
  rw [hnone]
  have hseq := startingAt_eq 0
  refine ⟨rfl, rfl, hseq, hseq, by simp, rfl, rfl, ?_, List.nil_prefix⟩
  intro k pair record e hpair
  simp at hpair

/-- A record is sealed. -/
theorem seals (lawful : ring.Lawful) (h : Lane key table sealer opener records sent n)
    {typ : ContentType} (htyp : typ.asU8 ≠ 0) {fragment record : Bytes} {sealer' : Sealer}
    (hseal : sealer.sealRecord ring typ fragment 0 = (.ok record, sealer')) :
    Lane key (table ++ [Channel.encryption sealer typ fragment 0 record]) sealer' opener
      (records ++ [record]) (sent ++ [(typ.asU8, fragment)]) n := by
  have hinv := @Channel.inv_seals ring key 0 _ typ fragment 0 lawful.seal_length h.inv htyp
  have hkey : (Channel.encryption sealer typ fragment 0 record).key = key.key :=
    congrArg DirectionKey.key h.inv.sealerKey
  simp only [Channel.step, hseal] at hinv
  refine ⟨?_, by simpa using Nat.le_succ_of_le h.opened⟩
  rw [List.filter_append, List.filter_cons_of_pos (by simpa using hkey), List.filter_nil,
    List.take_append_of_le_length h.opened]
  exact hinv

/-- Something is sealed under another key. -/
theorem other (h : Lane key table sealer opener records sent n) {made : List AeadSeal}
    (hmade : ∀ e ∈ made, e.key ≠ key.key) :
    Lane key (table ++ made) sealer opener records sent n := by
  have hnone : made.filter (·.key = key.key) = [] := by
    simpa [List.filter_eq_nil_iff] using hmade
  refine ⟨?_, h.opened⟩
  rw [List.filter_append, hnone, List.append_nil]
  exact h.inv

theorem openRecord_eq (ring : Ring) (h : Lane key table sealer opener records sent n)
    (record : Bytes) : opener.openRecord (ring.ideal table) record
      = opener.openRecord (ring.ideal (table.filter (·.key = key.key))) record := by
  refine openRecord_congr ?_ record
  have hkey : opener.key = key := h.inv.openerKey
  intro nonce aad ciphertext
  rw [hkey, ideal_filter]

/-- A record that opens is the next one. -/
theorem opens (h : Lane key table sealer opener records sent n) {record : Bytes} {opened : Opened}
    {opener' : Opener}
    (hopen : opener.openRecord (ring.ideal table) record = (.ok opened, opener')) :
    sent[n]? = some (opened.typ.asU8, opened.fragment) ∧
      Lane key table sealer opener' records sent (n + 1) := by
  rw [h.openRecord_eq] at hopen
  have hnext : sent[n]? = some (opened.typ.asU8, opened.fragment) := by
    have hsent := (Channel.openRecord_next h.inv hopen).1
    rw [h.take_length] at hsent
    exact hsent
  obtain ⟨hlt, hget⟩ := List.getElem?_eq_some_iff.mp hnext
  refine ⟨hnext, ?_, hlt⟩
  have hinv := Channel.inv_delivers ring h.inv record
  simp only [Channel.step, hopen] at hinv
  rw [List.take_succ_eq_append_getElem hlt, hget]
  exact hinv

/-- The next record opens, whatever was delivered before it. -/
theorem next (ring : Ring) (h : Lane key table sealer opener records sent n) {record : Bytes}
    (hrecord : records[n]? = some record) :
    ∃ opened opener', opener.openRecord (ring.ideal table) record = (.ok opened, opener') := by
  have hnext : records[(sent.take n).length]? = some record := by rw [h.take_length, hrecord]
  have hopen := Channel.openRecord_inOrder ring h.inv hnext
  rw [h.openRecord_eq]
  exact hopen

end Lane

/-! ### Both directions -/

/-- One end: its connection, the data it has written, the records that it has sent, and what its
reads have brought. -/
structure Party where
  connection : Connection
  wrote : List Bytes
  sent : List Bytes
  read : List Incoming

namespace Party

/-- Data is written: the party, and the encryption that was made. -/
def writes (ring : Ring) (party : Party) (data : Bytes) : Party × List AeadSeal :=
  match party.connection.write ring data with
  | (.ok record, connection) =>
      ({ party with connection, wrote := party.wrote ++ [data], sent := party.sent ++ [record] },
        [Channel.encryption party.connection.sealer .applicationData data 0 record])
  | (.error _, connection) => ({ party with connection }, [])

/-- A byte string comes in. -/
def reads (ring : Ring) (party : Party) (record : Bytes) : Party :=
  match party.connection.read ring record with
  | (.ok incoming, connection) => { party with connection, read := party.read ++ [incoming] }
  | (.error _, connection) => { party with connection }

theorem writes_cases (ring : Ring) (party : Party) (data : Bytes) :
    party.writes ring data = (party, []) ∨
      ∃ record sealer, party.connection.sealer.sealRecord ring .applicationData data 0
          = (.ok record, sealer) ∧
        party.writes ring data = (⟨{ party.connection with sealer }, party.wrote ++ [data],
          party.sent ++ [record], party.read⟩,
          [Channel.encryption party.connection.sealer .applicationData data 0 record]) := by
  cases hseal : party.connection.sealer.sealRecord ring .applicationData data 0 with
  | mk result sealer =>
      cases result with
      | error err =>
          obtain rfl := sealRecord_error hseal
          exact .inl (by simp only [writes, Connection.write, hseal, mapErr_error])
      | ok record =>
          exact .inr ⟨record, sealer, rfl, by simp only [writes, Connection.write, hseal, mapErr_ok]⟩

/-- What a party has read, apart from the records that only a middlebox looks at. -/
def heard (party : Party) : List Incoming := party.read.filter (· ≠ .handled)

end Party

/-- The two ends, and the encryptions that either of them has made. -/
structure Duplex where
  client : Party
  server : Party
  table : List AeadSeal

namespace Duplex

def party (d : Duplex) : Network.End → Party
  | .client => d.client
  | .server => d.server

/-- An end writes, or the network passes it a byte string. -/
inductive Event
  | writes (side : Network.End) (data : Bytes)
  | delivers (side : Network.End) (record : Bytes)
  deriving Repr, DecidableEq

def step (ring : Ring) (d : Duplex) : Event → Duplex
  | .writes .client data =>
      { d with
        client := (d.client.writes ring data).1
        table := d.table ++ (d.client.writes ring data).2 }
  | .writes .server data =>
      { d with
        server := (d.server.writes ring data).1
        table := d.table ++ (d.server.writes ring data).2 }
  | .delivers .client record => { d with client := d.client.reads (ring.ideal d.table) record }
  | .delivers .server record => { d with server := d.server.reads (ring.ideal d.table) record }

def run (ring : Ring) (d : Duplex) (events : List Event) : Duplex := events.foldl (step ring) d

/-! ### What a direction carries -/

/-- A connection makes something of a record, whatever its counters say, and is left as it was. -/
def Brings (ring : Ring) (base : Connection) (content : UInt8 × Bytes) (incoming : Incoming) :
    Prop :=
  incoming ≠ .handled ∧ ∀ table sealer opener,
    Connection.incoming (ring.ideal table) { base with sealer, opener }
        ⟨.fromU8 content.1, content.2⟩
      = (.ok incoming, { base with sealer, opener })

/-- What a direction carries, and what each record brings: what it starts with, and then the data
that is written. -/
def carries (first : List ((UInt8 × Bytes) × Incoming)) (wrote : List Bytes) :
    List ((UInt8 × Bytes) × Incoming) :=
  first ++ wrote.map fun data => ((ContentType.applicationData.asU8, data), .application data)

/-- One direction, from the party that writes to the party that reads, of which the latter has read
the first records. -/
structure Stream (ring : Ring) (key : DirectionKey) (table : List AeadSeal) (base : Connection)
    (first : List ((UInt8 × Bytes) × Incoming)) (sender receiver : Party) (n : Nat) : Prop where
  lane : Lane key table sender.connection.sealer receiver.connection.opener sender.sent
    ((carries first sender.wrote).map Prod.fst) n
  heard : receiver.heard = ((carries first sender.wrote).map Prod.snd).take n
  same : receiver.connection = { base with
    sealer := receiver.connection.sealer
    opener := receiver.connection.opener }
  brings : ∀ pair ∈ first, Brings ring base pair.1 pair.2

section Streams

variable {ring : Ring} {key : DirectionKey} {table : List AeadSeal} {base : Connection}
  {first : List ((UInt8 × Bytes) × Incoming)} {sender receiver : Party} {n : Nat}

theorem Stream.brings_all (h : Stream ring key table base first sender receiver n) :
    ∀ pair ∈ carries first sender.wrote, Brings ring base pair.1 pair.2 := by
  refine List.forall_mem_append.mpr ⟨h.brings, ?_⟩
  intro pair hmem
  obtain ⟨data, -, rfl⟩ := List.mem_map.mp hmem
  exact ⟨by simp, fun _ _ _ => rfl⟩

/-- The sender writes. -/
theorem Stream.writes (lawful : ring.Lawful)
    (h : Stream ring key table base first sender receiver n) (data : Bytes) :
    Stream ring key (table ++ (sender.writes ring data).2) base first (sender.writes ring data).1
      receiver n := by
  rcases sender.writes_cases ring data with hwrites | ⟨record, sealer, hseal, hwrites⟩
  · rw [hwrites, List.append_nil]
    exact h
  · have hcarries : carries first (sender.wrote ++ [data]) = carries first sender.wrote ++
        [((ContentType.applicationData.asU8, data), .application data)] := by
      simp [carries]
    have hlen := h.lane.opened
    rw [hwrites]
    refine ⟨?_, ?_, h.same, h.brings⟩
    · rw [hcarries, List.map_append]
      exact h.lane.seals lawful (by decide) hseal
    · rw [h.heard, hcarries, List.map_append, List.take_append_of_le_length (by simpa using hlen)]

/-- The reader writes, under another key. -/
theorem Stream.answers (h : Stream ring key table base first sender receiver n)
    (hkey : receiver.connection.sealer.key.key ≠ key.key) (data : Bytes) :
    Stream ring key (table ++ (receiver.writes ring data).2) base first sender
      (receiver.writes ring data).1 n := by
  rcases receiver.writes_cases ring data with hwrites | ⟨record, sealer, hseal, hwrites⟩
  · rw [hwrites, List.append_nil]
    exact h
  · rw [hwrites]
    refine ⟨h.lane.other (List.forall_mem_singleton.mpr hkey), h.heard, ?_, h.brings⟩
    dsimp only
    rw [h.same]

/-- A record of the direction brings what it should, and nothing moves but the opener. -/
theorem Stream.read_opened (h : Stream ring key table base first sender receiver n)
    {record : Bytes} {opened : Opened} {opener : Opener}
    (hopen : receiver.connection.opener.openRecord (ring.ideal table) record
      = (.ok opened, opener)) :
    ∃ incoming, incoming ≠ .handled ∧
      receiver.connection.read (ring.ideal table) record
        = (.ok incoming, { receiver.connection with opener }) ∧
      Stream ring key table base first sender
        ⟨{ receiver.connection with opener }, receiver.wrote, receiver.sent,
          receiver.read ++ [incoming]⟩ (n + 1) := by
  obtain ⟨hnext, hlane⟩ := h.lane.opens hopen
  rw [List.getElem?_map, Option.map_eq_some_iff] at hnext
  obtain ⟨⟨content, incoming⟩, hget, hcontent⟩ := hnext
  obtain ⟨hne, hbrings⟩ := h.brings_all _ (List.mem_of_getElem? hget)
  obtain rfl : content = (opened.typ.asU8, opened.fragment) := hcontent
  have hsame := h.same
  refine ⟨incoming, hne, ?_, hlane, ?_, ?_, h.brings⟩
  · have hincoming := hbrings table receiver.connection.sealer opener
    rw [← openRecord_typ hopen] at hincoming
    rw [Connection.read, if_neg (Connection.head_of_openRecord hopen), hopen]
    dsimp only
    rw [hsame]
    exact hincoming
  · obtain ⟨hlt, hget⟩ := List.getElem?_eq_some_iff.mp hget
    have hnext : ((carries first sender.wrote).map Prod.snd).get ⟨n, by simpa using hlt⟩
        = incoming := by
      simp [hget]
    rw [Party.heard, List.filter_append, List.filter_cons_of_pos (by simpa using hne),
      List.filter_nil, ← Party.heard, h.heard, ← hnext, List.get_eq_getElem,
      ← List.take_succ_eq_append_getElem]
  · dsimp only
    rw [hsame]

/-- Whatever the network passes the reader: it reads the next record of the direction, or what only
a middlebox looks at, or nothing. -/
theorem Stream.reads (h : Stream ring key table base first sender receiver n) (record : Bytes) :
    ∃ n', Stream ring key table base first sender (receiver.reads (ring.ideal table) record) n' ∧
      (receiver.reads (ring.ideal table) record).connection.sealer = receiver.connection.sealer ∧
      (receiver.reads (ring.ideal table) record).wrote = receiver.wrote ∧
      (receiver.reads (ring.ideal table) record).sent = receiver.sent := by
  by_cases hhead : record.head? = some changeCipherSpec
  · have hreads : receiver.reads (ring.ideal table) record
        = { receiver with read := receiver.read ++ [.handled] } := by
      simp only [Party.reads, Connection.read, if_pos hhead]
    rw [hreads]
    refine ⟨n, ⟨h.lane, ?_, h.same, h.brings⟩, rfl, rfl, rfl⟩
    rw [← h.heard, Party.heard, Party.heard, List.filter_append, List.filter_cons_of_neg (by simp),
      List.filter_nil, List.append_nil]
  · cases hopen : receiver.connection.opener.openRecord (ring.ideal table) record with
    | mk result opener =>
        cases result with
        | error err =>
            have hreads : receiver.reads (ring.ideal table) record = receiver := by
              obtain rfl := openRecord_error hopen
              simp only [Party.reads, Connection.read, if_neg hhead, hopen]
            rw [hreads]
            exact ⟨n, h, rfl, rfl, rfl⟩
        | ok opened =>
            obtain ⟨incoming, -, hread, hstream⟩ := h.read_opened hopen
            have hreads : receiver.reads (ring.ideal table) record
                = ⟨{ receiver.connection with opener }, receiver.wrote, receiver.sent,
                  receiver.read ++ [incoming]⟩ := by
              simp only [Party.reads, hread]
            rw [hreads]
            exact ⟨n + 1, hstream, rfl, rfl, rfl⟩

theorem Stream.of_sender (h : Stream ring key table base first sender receiver n) {sender' : Party}
    (hsealer : sender'.connection.sealer = sender.connection.sealer)
    (hwrote : sender'.wrote = sender.wrote) (hsent : sender'.sent = sender.sent) :
    Stream ring key table base first sender' receiver n := by
  refine ⟨?_, ?_, h.same, h.brings⟩
  · rw [hsealer, hwrote, hsent]
    exact h.lane
  · rw [hwrote]
    exact h.heard

theorem Stream.heard_length (h : Stream ring key table base first sender receiver n) :
    receiver.heard.length = n := by
  have hlen := h.lane.opened
  rw [List.length_map] at hlen
  rw [h.heard, List.length_take, List.length_map, Nat.min_eq_left hlen]

/-- Once the rest is delivered in order, all of it has been read. -/
theorem Stream.drains (h : Stream ring key table base first sender receiver n) :
    ((sender.sent.drop n).foldl (fun party => party.reads (ring.ideal table)) receiver).heard
      = (carries first sender.wrote).map Prod.snd := by
  -- By induction on how many records are still to come.
  induction hrest : sender.sent.length - n generalizing receiver n with
  | zero =>
      have hle : sender.sent.length ≤ n := by omega
      have hlen : sender.sent.length = (carries first sender.wrote).length := by
        have hrecords := h.lane.inv.records_length
        simpa using hrecords
      rw [List.drop_eq_nil_of_le hle, List.foldl_nil, h.heard,
        List.take_of_length_le (by simpa using hlen ▸ hle)]
  | succ rest ih =>
      have hlt : n < sender.sent.length := by omega
      obtain ⟨opened, opener, hopen⟩ := h.lane.next ring (List.getElem?_eq_getElem hlt)
      obtain ⟨incoming, -, hread, hstream⟩ := h.read_opened hopen
      have hreads : receiver.reads (ring.ideal table) sender.sent[n]
          = ⟨{ receiver.connection with opener }, receiver.wrote, receiver.sent,
            receiver.read ++ [incoming]⟩ := by
        simp only [Party.reads, hread]
      rw [List.drop_eq_getElem_cons hlt, List.foldl_cons, hreads]
      exact ih hstream (by omega)

end Streams

/-! ### Runs -/

/-- Both directions are in order. -/
def Sound (ring : Ring) (up down : DirectionKey) (c s : Connection)
    (first : List ((UInt8 × Bytes) × Incoming)) (d : Duplex) : Prop :=
  (∃ n, Stream ring up d.table s [] d.client d.server n) ∧
    ∃ n, Stream ring down d.table c first d.server d.client n

section Runs

variable {ring : Ring} {up down : DirectionKey} {c s : Connection}
  {first : List ((UInt8 × Bytes) × Incoming)} {d : Duplex}

theorem sound_step (lawful : ring.Lawful) (hapart : up.key ≠ down.key)
    (h : Sound ring up down c s first d) (event : Event) :
    Sound ring up down c s first (step ring d event) := by
  obtain ⟨⟨n, hup⟩, m, hdown⟩ := h
  cases event with
  | writes side data =>
      cases side with
      | client =>
          refine ⟨⟨n, hup.writes lawful data⟩, m, hdown.answers ?_ data⟩
          rw [hup.lane.inv.sealerKey]
          exact hapart
      | server =>
          refine ⟨⟨n, hup.answers ?_ data⟩, m, hdown.writes lawful data⟩
          rw [hdown.lane.inv.sealerKey]
          exact hapart.symm
  | delivers side record =>
      cases side with
      | client =>
          obtain ⟨m', hreads, hsealer, hwrote, hsent⟩ := hdown.reads record
          exact ⟨⟨n, hup.of_sender hsealer hwrote hsent⟩, m', hreads⟩
      | server =>
          obtain ⟨n', hreads, hsealer, hwrote, hsent⟩ := hup.reads record
          exact ⟨⟨n', hreads⟩, m, hdown.of_sender hsealer hwrote hsent⟩

theorem sound_run (lawful : ring.Lawful) (hapart : up.key ≠ down.key) (events : List Event) :
    ∀ {d : Duplex}, Sound ring up down c s first d →
      Sound ring up down c s first (run ring d events) := by
  induction events with
  | nil => exact fun h => h
  | cons event events ih => exact fun h => ih (sound_step lawful hapart h event)

theorem party_run_delivers (ring : Ring) (side : Network.End) (records : List Bytes) :
    ∀ d : Duplex, (run ring d (records.map (.delivers side))).party side
      = records.foldl (fun party => party.reads (ring.ideal d.table)) (d.party side) := by
  induction records with
  | nil => exact fun d => rfl
  | cons record records ih =>
      intro d
      have hstep : (step ring d (.delivers side record)).table = d.table ∧
          (step ring d (.delivers side record)).party side
            = (d.party side).reads (ring.ideal d.table) record := by
        cases side <;> exact ⟨rfl, rfl⟩
      rw [List.map_cons, List.foldl_cons, ← hstep.2, ← hstep.1]
      exact ih (step ring d (.delivers side record))

/-- What one end has read of what the other has sent. -/
structure Delivered (ring : Ring) (d : Duplex) (side other : Network.End) (first : List Incoming) :
    Prop where
  /-- It is the beginning of it, in order, and as it was sent. -/
  inOrder : (d.party side).heard <+: first ++ (d.party other).wrote.map .application
  /-- The next record is read, whatever else was passed before it. -/
  next : ∀ record, (d.party other).sent[(d.party side).heard.length]? = some record →
    ∃ incoming, incoming ≠ .handled ∧
      ((d.party side).connection.read (ring.ideal d.table) record).1 = .ok incoming
  /-- The rest is read, once it is passed in order. -/
  rest : ((run ring d (((d.party other).sent.drop (d.party side).heard.length).map
    (.delivers side))).party side).heard = first ++ (d.party other).wrote.map .application

theorem Stream.delivered {key : DirectionKey} {base : Connection} {n : Nat}
    {side other : Network.End}
    (h : Stream ring key d.table base first (d.party other) (d.party side) n) :
    Delivered ring d side other (first.map Prod.snd) := by
  have hcarries : (carries first (d.party other).wrote).map Prod.snd
      = first.map Prod.snd ++ (d.party other).wrote.map .application := by
    simp [carries, Function.comp_def]
  refine ⟨?_, ?_, ?_⟩
  · rw [← hcarries, h.heard]
    exact List.take_prefix _ _
  · intro record hrecord
    rw [h.heard_length] at hrecord
    obtain ⟨opened, opener, hopen⟩ := h.lane.next ring hrecord
    obtain ⟨incoming, hne, hread, -⟩ := h.read_opened hopen
    exact ⟨incoming, hne, congrArg Prod.fst hread⟩
  · rw [party_run_delivers, h.heard_length, h.drains, hcarries]

end Runs

/-! ### Established connections -/

/-- A run of a client and a run of a server have ended, as the two ends of one connection, and the
server's last record is on its way. -/
structure Established {ring : Ring} (lawful : ring.Lawful) (client : Client.ClientConfig)
    (server : Server.ServerConfig) (c s : Connection) (messages : List Message)
    (issued : List IssuedTicket) (out : Bytes) : Prop where
  completes : ∃ run start log reached finished answer,
    Client.Completes ring client run start log reached finished answer c
  ends : ∃ inputs, ∃ step ∈ (Server.endpoint ring server).taken Server.ServerHandshake.new inputs,
    ∃ negotiated, step.before = .awaitFinished negotiated ∧ step.after = .done s ∧
      step.reply = out ∧
      Server.Ends lawful step.entropy server negotiated step.message messages issued out s ∧
      c.resumptionMaster = negotiated.resumptionMaster ring step.message
  paired : Paired c s

/-- A client's run and a server's that agree on the client's Finished have established a
connection. -/
theorem established_of_connects {ring : Ring} {lawful : ring.Lawful} {client : Client.ClientConfig}
    {server : Server.ServerConfig} {run : Entropy × List (Entropy × Bytes)}
    {inputs : List (Entropy × Bytes)} {start : Client.Awaiting} {log reading : List Message}
    {reached : Client.Negotiated} {finished : Message} {answer heard : List Message}
    {c : Connection} {given : Server.Answer} {answered negotiated : Server.Negotiated}
    {step : Endpoint.Taken Server.State}
    (hstep : (Server.endpoint ring server).Takes Server.ServerHandshake.new inputs log step)
    (hbefore : step.before = .awaitFinished negotiated)
    (hcompletes : Client.Completes ring client run start reading reached finished answer c)
    (h : Connects lawful client server start reading reached finished answer c given answered heard
      negotiated step) :
    ∃ s messages issued, step.after = .done s ∧
      Established lawful client server c s messages issued step.reply := by
  obtain ⟨messages, issued, s, hafter, hits, hpaired, hmaster⟩ := h.its
  exact ⟨s, messages, issued, hafter, ⟨_, _, _, _, _, _, hcompletes⟩,
    ⟨inputs, step, hstep.mem, negotiated, hbefore, hafter, rfl, hits, hmaster⟩, hpaired⟩

/-- The ends of an established connection. Whatever was sealed before is under other keys, but for
the record with the tickets. -/
def start (c s : Connection) (messages : List Message) (out : Bytes) (others : List AeadSeal) :
    Duplex where
  client := ⟨c, [], [], []⟩
  server := ⟨s, [], if messages = [] then [] else [out], []⟩
  table := others ++ if messages = [] then [] else
    [Channel.encryption ⟨s.sealer.key, .startingAt 0⟩ .handshake (octets messages) 0 out]

/-- The sessions that the client makes of the tickets it is sent. -/
def sessionsOf (ring : Ring) (server : Server.ServerConfig) (c : Connection)
    (issued : List IssuedTicket) : List Session :=
  issued.map fun one => one.session ring ((server.tickets.map (·.lifetime)).getD 0) c

/-- What the client reads first: its sessions, if it is sent tickets. -/
def ticketsRead (ring : Ring) (server : Server.ServerConfig) (c : Connection)
    (issued : List IssuedTicket) : List Incoming :=
  if issued = [] then [] else [.tickets (sessionsOf ring server c issued)]

section Start

variable {ring : Ring} {lawful : ring.Lawful} {client : Client.ClientConfig}
  {server : Server.ServerConfig} {c s : Connection} {messages : List Message}
  {issued : List IssuedTicket} {out : Bytes}

theorem derive_ne (lawful : ring.Lawful) (schedule : KeySchedule) (label : String)
    (transcriptHash : Bytes) : schedule.derive ring label transcriptHash ≠ [] := by
  have hpos := schedule.hash.len_pos
  exact Client.hashBytes_ne (expandLabel_length lawful schedule.hash schedule.secret label
    transcriptHash (show schedule.hash.len ≤ 254 * schedule.hash.len by omega))

/-- The record with the tickets brings the client its sessions. -/
theorem brings_tickets (hmaster : c.resumptionMaster ≠ []) {tickets : Server.Tickets}
    {entropy : Entropy} {negotiated : Server.Negotiated} {resumptionMaster : Bytes}
    (hne : issued ≠ []) (hissues : ∀ one ∈ issued,
      Server.Issues ring entropy server tickets negotiated resumptionMaster one)
    (hshort : (octets (issued.map (·.message tickets.lifetime))).length ≤ maxFragmentLen) :
    Brings ring c
      (ContentType.handshake.asU8, octets (issued.map (·.message tickets.lifetime)))
      (.tickets (issued.map (·.session ring tickets.lifetime c))) := by
  refine ⟨by simp, ?_⟩
  intro table sealer opener
  have hread := Connection.postHandshake_issued (ring.ideal table) { c with sealer, opener } hmaster
    hne (Server.Issues.reads hissues) hshort
  simp only [IssuedTicket.session, expandLabel_ideal] at hread
  exact hread

/-- The client reads with the key that the server seals its tickets under. -/
theorem opener_of_paired {reached : Client.Negotiated} {finished last : Message}
    {answer : List Message} {entropy : Entropy} {negotiated : Server.Negotiated}
    (hmine : Client.Ends lawful reached finished answer c)
    (hits : Server.Ends lawful entropy server negotiated last messages issued out s)
    (hpaired : Paired c s) :
    c.opener = ⟨directionKey lawful negotiated.hash negotiated.serverApplicationSecret
      negotiated.aead, .startingAt 0⟩ := by
  rw [hmine.opener, hpaired.hash, hpaired.aead, hpaired.serverToClient, hits.hash, hits.aead,
    hits.sending]

/-- Both directions start in order. -/
theorem sound_start (h : Established lawful client server c s messages issued out)
    {others : List AeadSeal}
    (hothers : ∀ e ∈ others, e.key ≠ c.sealer.key.key ∧ e.key ≠ c.opener.key.key)
    (hapart : c.sealer.key.key ≠ c.opener.key.key) :
    ∃ first, first.map Prod.snd = ticketsRead ring server c issued ∧
      Sound ring c.sealer.key c.opener.key c s first (start c s messages out others) := by
  obtain ⟨_, _, _, _, _, _, hcompletes⟩ := h.completes
  obtain ⟨_, _, -, -, -, -, hmine⟩ := hcompletes.reading lawful
  obtain ⟨_, step, -, negotiated, -, -, -, hits, -⟩ := h.ends
  have hpaired := h.paired
  -- The keys of the two directions, at either end.
  have hup : s.opener = ⟨c.sealer.key, .startingAt 0⟩ := by
    rw [hits.opener, hmine.sealer, hpaired.hash, hpaired.aead, hpaired.clientToServer, hits.hash,
      hits.aead, hits.receiving]
  have hclient : c.sealer = ⟨c.sealer.key, .startingAt 0⟩ := by rw [hmine.sealer]
  have hdown : c.opener = ⟨c.opener.key, .startingAt 0⟩ := by rw [hmine.opener]
  have hkey : c.opener.key = directionKey lawful negotiated.hash negotiated.serverApplicationSecret
      negotiated.aead := by rw [opener_of_paired hmine hits hpaired]
  have htickets := hits.tickets
  rw [← hkey] at htickets
  have hmaster : c.resumptionMaster ≠ [] := by
    rw [hmine.resumptionMaster]
    exact derive_ne lawful _ _ _
  have hmine' : Lane c.sealer.key others c.sealer s.opener [] [] 0 := by
    rw [hup, hclient]
    exact Lane.fresh _ fun e hmem => (hothers e hmem).1
  have hits' : Lane c.opener.key others ⟨c.opener.key, .startingAt 0⟩ c.opener [] [] 0 := by
    rw [hdown]
    exact Lane.fresh _ fun e hmem => (hothers e hmem).2
  generalize hsealer : s.sealer = sealer at htickets
  cases htickets with
  | nothing =>
      have hstart : start c s [] [] others = ⟨⟨c, [], [], []⟩, ⟨s, [], [], []⟩, others⟩ := by
        simp [start]
      rw [hstart]
      refine ⟨[], rfl, ⟨0, hmine', rfl, rfl, by simp⟩, 0, ?_, rfl, rfl, by simp⟩
      rw [hsealer]
      exact hits'
  | @record tickets _ _ _ hconfig hlength hne hissues hseal =>
      obtain ⟨_, _, -, hshort, -, -, -, hafter⟩ := sealRecord_ok hseal
      have hstart : start c s (issued.map (·.message tickets.lifetime)) out others
          = ⟨⟨c, [], [], []⟩, ⟨s, [], [out], []⟩, others ++
            [Channel.encryption ⟨c.opener.key, .startingAt 0⟩ .handshake
              (octets (issued.map (·.message tickets.lifetime))) 0 out]⟩ := by
        simp [start, hne, hsealer, hafter]
      have hread : ticketsRead ring server c issued
          = [.tickets (issued.map (·.session ring tickets.lifetime c))] := by
        simp [ticketsRead, sessionsOf, hne, hconfig]
      rw [hstart, hread]
      refine ⟨[((ContentType.handshake.asU8, octets (issued.map (·.message tickets.lifetime))),
        .tickets (issued.map (·.session ring tickets.lifetime c)))], rfl,
        ⟨0, hmine'.other ?_, rfl, rfl, by simp⟩, 0, ?_, rfl, rfl, ?_⟩
      · exact List.forall_mem_singleton.mpr hapart.symm
      · rw [hsealer]
        exact hits'.seals lawful (by decide) hseal
      · exact List.forall_mem_singleton.mpr (brings_tickets hmaster hne hissues hshort)

/-- **Established connections carry their data**, whatever the network does. Let a run of a client
and a run of a server end as the two ends of one connection, under keys of their own, and let the
AEAD be ideal. However the two write and whatever byte strings the network passes them, in whatever
order: what each end has read is the beginning of what the other has sent, the client's sessions
first, if it is sent tickets, and then the data as it was written. Nothing is lost, repeated or
changed, neither end is asked for anything or told of a close, and what the network makes up does
not keep an end from reading on. -/
theorem run_delivers (h : Established lawful client server c s messages issued out)
    {others : List AeadSeal}
    (hothers : ∀ e ∈ others, e.key ≠ c.sealer.key.key ∧ e.key ≠ c.opener.key.key)
    (hapart : c.sealer.key.key ≠ c.opener.key.key) (events : List Event) :
    Delivered ring (run ring (start c s messages out others) events) .client .server
        (ticketsRead ring server c issued) ∧
      Delivered ring (run ring (start c s messages out others) events) .server .client [] := by
  obtain ⟨first, hfirst, hsound⟩ := sound_start h hothers hapart
  obtain ⟨⟨n, hup⟩, m, hdown⟩ := sound_run lawful hapart events hsound
  have hserver : Delivered ring (run ring (start c s messages out others) events) .server .client
      (([] : List ((UInt8 × Bytes) × Incoming)).map Prod.snd) := Stream.delivered hup
  rw [← hfirst]
  exact ⟨Stream.delivered hdown, hserver⟩

end Start

/-- Such steps establish a connection. -/
theorem established_of_taken {ring : Ring} (lawful : ring.Lawful) {client : Client.ClientConfig}
    {server : Server.ServerConfig} {entropy : Entropy} {opening : Client.Awaiting} {record : Bytes}
    (hstart : Client.start ring entropy client = .ok (⟨.awaitServerHello opening, []⟩, record))
    {heard said : List (Entropy × Bytes)} {mine : Endpoint.Taken Client.State}
    (hmine : mine ∈ (Client.endpoint ring client).taken ⟨.awaitServerHello opening, []⟩ heard)
    {its : Endpoint.Taken Server.State}
    (hits : its ∈ (Server.endpoint ring server).taken Server.ServerHandshake.new said)
    (hends : endsPaired ring mine its = true) :
    ∃ c s messages issued, mine.after = .done c ∧ its.after = .done s ∧
      Established lawful client server c s messages issued its.reply ∧
      c.sealer.key.key ≠ c.opener.key.key := by
  unfold endsPaired at hends
  split at hends
  · next reached c negotiated s hreached hdone hbefore hafter =>
      obtain ⟨haead, hhash, hsuite, hup, hdown, hmaster, hapart⟩ := of_decide_eq_true hends
      obtain ⟨log, htakes⟩ := Endpoint.exists_takes hmine
      obtain ⟨answer, -, hcompletes⟩ :=
        Client.completes_of_takes lawful hstart htakes hreached hdone
      obtain ⟨messages, issued, hlast⟩ := Server.ends_of_taken lawful hits hbefore hafter
      exact ⟨c, s, messages, issued, hdone, hafter,
        ⟨⟨_, _, _, _, _, _, hcompletes⟩, ⟨_, its, hits, negotiated, hbefore, hafter, rfl, hlast,
          hmaster⟩, haead, hhash, hsuite, hup, hdown⟩, hapart⟩
  · cases hends

/-- The sample client and the sample server end as the two ends of one connection, and the client is
given a session. -/
theorem established_sample : ∃ c s messages issued out,
    Established Ring.sampleSigned_complete.toLawful Server.sampleIdentified Server.sampleAsking c s
      messages issued out ∧ c.sealer.key.key ≠ c.opener.key.key ∧ out ≠ [] ∧
    c.suite = .tlsAes128GcmSha256 ∧ s.certificates = Server.ServerConfig.sample.certificates ∧
    (c.read .sampleSigned out).1 = .ok (.tickets [Server.sampleSession]) := by
  obtain ⟨mine, hmine, its, hits, -, hends, hgives⟩ := sample_lastSteps
  obtain ⟨record, hstart⟩ := Client.start_sampleOpening
  obtain ⟨c, s, messages, issued, hdone, hafter, hestablished, hapart⟩ :=
    established_of_taken Ring.sampleSigned_complete.toLawful hstart hmine hits hends
  simp only [givesSample, hdone, hafter, decide_eq_true_eq] at hgives
  exact ⟨c, s, messages, issued, its.reply, hestablished, hapart, hgives⟩

/-- The two of them write across a forgery and a record that comes twice. -/
theorem run_delivers_sample : ∃ c s messages issued out,
    Established Ring.sampleSigned_complete.toLawful Server.sampleIdentified Server.sampleAsking c s
      messages issued out ∧
    let d := run .sampleSigned (start c s messages out [])
      [.writes .server [1, 2], .delivers .client [23, 3, 3, 0, 0], .writes .client [3],
        .delivers .client out, .delivers .client out]
    Delivered .sampleSigned d .client .server
        (ticketsRead .sampleSigned Server.sampleAsking c issued) ∧
      Delivered .sampleSigned d .server .client [] := by
  obtain ⟨c, s, messages, issued, out, hestablished, hapart, -⟩ := established_sample
  exact ⟨c, s, messages, issued, out, hestablished,
    run_delivers hestablished (by simp) hapart _⟩

end Duplex

end RustyTls
