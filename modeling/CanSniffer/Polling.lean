import CanSniffer.LatencyExchange
import CanSniffer.Library.Trace

namespace CanSniffer

open Library Library.PyJson Library.Exchange LatencyPairs Models LatencyMonitor

/-- One `poll` of `task_cmd_resp`: its counter, and whether it waits for the node's processing. -/
structure Poller where
  counter : Nat := 0
  processing : Bool := false

namespace Poller

/-- What the next `_send` is called with. -/
def send (node : Nat) (p : Poller) : (Nat × List UInt8) × Poller :=
  if p.processing then
    ((0x000 ||| node, [0x43, .ofNat node, .ofNat p.counter, 0, 0, 0, 0, 0]),
      { p with processing := false })
  else
    let counter := (p.counter + 1) &&& 0xFF
    ((0x100 ||| node, [0x40, .ofNat node, .ofNat counter]), { counter, processing := true })

end Poller

/-- The pollers with the frames that got onto the bus. `asked` is the request of the poll that each
node is in, if it got there, and `completed` are the polls of which both frames did; no step reads
them. -/
structure PolledBus where
  poller : Nat → Poller := fun _ => {}
  frames : List EnrichedFrame := []
  asked : Nat → Option EnrichedFrame := fun _ => none
  completed : Nat → List (EnrichedFrame × EnrichedFrame) := fun _ => []

namespace PolledBus

def nodes : List Nat := [1, 2, 3, 4, 5, 6]

/-- A poller sends, and the frame gets onto the bus or the exception of `send` is passed over; or
there is other traffic. -/
inductive Move
  | poll (node : Nat) (delivered : Bool) (ts : ℚ) (pruTsNs : Option Int)
  | other (frame : EnrichedFrame)

def sent (message : Nat × List UInt8) (ts : ℚ) (pruTsNs : Option Int) : EnrichedFrame where
  arbId := message.1
  dlc := message.2.length
  data := message.2
  isExtended := false
  pruTsNs := pruTsNs
  kernelTs := ts

def step (s : PolledBus) : Move → PolledBus
  | .poll node delivered ts pruTsNs =>
    let (message, poller) := (s.poller node).send node
    let frame := sent message ts pruTsNs
    { poller := Function.update s.poller node poller
      frames := if delivered then s.frames ++ [frame] else s.frames
      asked := Function.update s.asked node
        (if delivered ∧ poller.processing then some frame else none)
      completed :=
        if delivered then
          Function.update s.completed node (s.completed node ++
            ((s.asked node).map fun request => (request, frame)).toList)
        else s.completed }
  | .other frame => { s with frames := s.frames ++ [frame] }

def run (moves : List Move) : PolledBus := moves.foldl step {}

/-- At the time `ts`, which is a double, no node has been processing for more than a second. -/
def Prompt (s : PolledBus) (ts : ℚ) : Prop :=
  Binary64.round ts = ts ∧
    ∀ node ∈ nodes, ∀ request ∈ s.asked node, Binary64.sub ts 1 ≤ request.kernelTs

instance (s : PolledBus) (ts : ℚ) : Decidable (s.Prompt ts) :=
  inferInstanceAs (Decidable (_ ∧ _))

/-- No request gets lost, and nothing else uses the identifiers of the polls. -/
def Orderly (s : PolledBus) : Move → Prop
  | .poll node delivered ts _ =>
    node ∈ nodes ∧ ((s.poller node).processing = false → delivered = true) ∧ s.Prompt ts
  | .other frame =>
    (∀ node ∈ nodes, frame.arbId ≠ 0x100 ||| node ∧ frame.arbId ≠ 0x000 ||| node) ∧
      s.Prompt frame.kernelTs

instance (s : PolledBus) : (mv : Move) → Decidable (s.Orderly mv)
  | .poll _ _ _ _ => inferInstanceAs (Decidable (_ ∧ _ ∧ _))
  | .other _ => inferInstanceAs (Decidable (_ ∧ _))

end PolledBus

namespace Polling

open PolledBus

/-- `data/latency_pairs.example.json`. -/
def examplePairs : Json :=
  .arr [
    .obj [
      ("_comment", .str "Explicit pair — measure latency between two specific arb IDs"),
      ("type", .str "explicit"), ("request_id", .str "0x601"), ("response_id", .str "0x581"),
      ("label", .str "SDO Node 1")],
    .obj [
      ("_comment", .str "Pattern pair — node_mask=0xFF means lower byte is the node/channel ID."),
      ("_comment2", .str "0x1NN -> 0x0NN matches all: 0x100->0x000, 0x160->0x060, 0x1FF->0x0FF etc."),
      ("type", .str "pattern"), ("request_base", .str "0x100"), ("response_base", .str "0x000"),
      ("label_template", .str "Device 0x\x7bnode_id:02X\x7d")]]

def deviceTemplate : String := "Device 0x\x7bnode_id:02X\x7d"

def deviceLabel (node : Nat) : String := "Device 0x" ++ PyText.hexUpper 2 node

def sdoPair : ExplicitPair := ⟨0x601, 0x581, .str "SDO Node 1"⟩

def devicePair : PatternPair := ⟨0x100, 0x000, .str deviceTemplate⟩

theorem load_examplePairs (text : String) :
    loadPairs (some (.foreign text (some examplePairs))) = some ([sdoPair], [devicePair]) := by
  rfl

def shippedPairs : List Pair := [.explicit sdoPair, .pattern devicePair]

def deviceKey (node : Nat) : DictKey := .str (deviceLabel node)

/-- `str.format` fills in the node. -/
def Formats (format : String → Nat → Option String) : Prop :=
  ∀ node, format deviceTemplate node = some (deviceLabel node)

variable {format : String → Nat → Option String} {node arbId : Nat}

theorem deviceKey_inj {a b : Nat} (h : deviceKey a = deviceKey b) : a = b := by
  have hlabel := DictKey.str.inj h
  rw [deviceLabel, deviceLabel] at hlabel
  have hlist := congrArg String.toList hlabel
  rw [String.toList_append, String.toList_append, List.append_cancel_left_eq] at hlist
  have hread := congrArg (fun s => PyText.intBase16 ("0x" ++ s)) (String.toList_inj.mp hlist)
  rw [PyText.intBase16_hexUpper, PyText.intBase16_hexUpper] at hread
  exact Int.ofNat_inj.mp (Option.some.inj hread)

theorem sdo_ne_deviceKey (node : Nat) : DictKey.str "SDO Node 1" ≠ deviceKey node := by
  intro h
  have hlist := congrArg String.toList (DictKey.str.inj h)
  rw [deviceLabel, String.toList_append] at hlist
  cases hlist

variable (format arbId) in
theorem sdo_reaction : (Pair.explicit sdoPair).reaction format arbId = .nothing ∨
    (Pair.explicit sdoPair).reaction format arbId = .request (.str "SDO Node 1") ∨
    (Pair.explicit sdoPair).reaction format arbId = .response (.str "SDO Node 1") := by
  rw [Pair.reaction]
  cases (Pair.explicit sdoPair).isRequest arbId with
  | true => exact .inr (.inl rfl)
  | false =>
    cases (Pair.explicit sdoPair).isResponse arbId with
    | true => exact .inr (.inr rfl)
    | false => exact .inl rfl

theorem device_label (hformat : Formats format) :
    (Pair.pattern devicePair).label format arbId = some (deviceKey (nodeOf arbId)) := by
  rw [Pair.label, PatternPair.labelFor]
  dsimp only [devicePair]
  rw [hformat]
  rfl

theorem no_raise (hformat : Formats format) :
    ∀ p ∈ shippedPairs, p.reaction format arbId ≠ .raises := by
  intro p hp
  rw [shippedPairs, List.mem_cons, List.mem_singleton] at hp
  obtain rfl | rfl := hp
  · obtain h | h | h := sdo_reaction format arbId
    all_goals
      rw [h]
      exact nofun
  · rw [Ne, Pair.reaction_raises_iff, device_label hformat]
    exact fun h => nomatch h.1

theorem reached_shipped (hformat : Formats format) :
    reached format shippedPairs arbId = shippedPairs :=
  List.takeWhile_eq_self_iff.mpr fun p hp => by simpa using no_raise hformat p hp

theorem device_request_iff (hformat : Formats format) :
    (Pair.pattern devicePair).reaction format arbId = .request (deviceKey node) ↔
      baseOf arbId = 0x100 ∧ nodeOf arbId = node := by
  rw [Pair.reaction_request_iff, device_label hformat, Option.some_inj]
  simp only [Pair.isRequest, decide_eq_true_eq]
  constructor
  · rintro ⟨hbase, hkey⟩
    exact ⟨hbase, deviceKey_inj hkey⟩
  · rintro ⟨hbase, rfl⟩
    exact ⟨hbase, rfl⟩

theorem device_response_iff (hformat : Formats format) :
    (Pair.pattern devicePair).reaction format arbId = .response (deviceKey node) ↔
      baseOf arbId = 0x000 ∧ nodeOf arbId = node := by
  rw [Pair.reaction_response_iff, device_label hformat, Option.some_inj]
  simp only [Pair.isRequest, Pair.isResponse, decide_eq_true_eq, decide_eq_false_iff_not]
  constructor
  · rintro ⟨-, hbase, hkey⟩
    exact ⟨hbase, deviceKey_inj hkey⟩
  · rintro ⟨hbase, rfl⟩
    exact ⟨by rw [hbase]; decide, hbase, rfl⟩

theorem base_or_node (k : Nat) {node : Nat} (hnode : node < 2 ^ 8) :
    baseOf (2 ^ 8 * k ||| node) = (2 ^ 8 * k : Nat) ∧ nodeOf (2 ^ 8 * k ||| node) = node := by
  have hid : nodeOf (2 ^ 8 * k ||| node) = node := by
    rw [nodeOf_eq, ← Nat.two_pow_add_eq_or_of_lt hnode, Nat.mul_add_mod]
    exact Nat.mod_eq_of_lt hnode
  refine ⟨?_, hid⟩
  rw [baseOf, hid, ← Nat.two_pow_add_eq_or_of_lt hnode, Nat.add_sub_cancel]

theorem request_id {node : Nat} (hnode : node < 256) :
    baseOf (0x100 ||| node) = 0x100 ∧ nodeOf (0x100 ||| node) = node := base_or_node 1 hnode

theorem response_id {node : Nat} (hnode : node < 256) :
    baseOf (0x000 ||| node) = 0x000 ∧ nodeOf (0x000 ||| node) = node := base_or_node 0 hnode

theorem requested_iff (hformat : Formats format) (hnode : node < 256) :
    Requested format shippedPairs (deviceKey node) arbId ↔ arbId = 0x100 ||| node := by
  have hsdo : (Pair.explicit sdoPair).reaction format arbId ≠ .request (deviceKey node) := by
    obtain h | h | h := sdo_reaction format arbId
    · rw [h]
      exact nofun
    · rw [h]
      exact fun heq => sdo_ne_deviceKey node (Reaction.request.inj heq)
    · rw [h]
      exact nofun
  have hid := request_id hnode
  rw [Requested, reached_shipped hformat]
  simp only [shippedPairs, List.mem_cons, List.not_mem_nil, or_false, exists_eq_or_imp,
    exists_eq_left, hsdo, false_or]
  rw [device_request_iff hformat]
  constructor
  · rintro ⟨hbase, hn⟩
    exact arbId_ext (hbase.trans hid.1.symm) (hn.trans hid.2.symm)
  · rintro rfl
    exact hid

theorem responder_isSome_iff (hformat : Formats format) (hnode : node < 256) :
    (responder format shippedPairs (deviceKey node) arbId).isSome ↔ arbId = 0x000 ||| node := by
  have hsdo : (Pair.explicit sdoPair).reaction format arbId ≠ .response (deviceKey node) := by
    obtain h | h | h := sdo_reaction format arbId
    · rw [h]
      exact nofun
    · rw [h]
      exact nofun
    · rw [h]
      exact fun heq => sdo_ne_deviceKey node (Reaction.response.inj heq)
  have hid := response_id hnode
  rw [responder, reached_shipped hformat, List.find?_isSome]
  simp only [shippedPairs, List.mem_cons, List.not_mem_nil, or_false, exists_eq_or_imp,
    exists_eq_left, hsdo, false_or, decide_eq_true_eq]
  rw [device_response_iff hformat]
  constructor
  · rintro ⟨hbase, hn⟩
    exact arbId_ext (hbase.trans hid.1.symm) (hn.trans hid.2.symm)
  · rintro rfl
    exact hid

theorem kindOf_device (hformat : Formats format) (hnode : node < 256) (frame : EnrichedFrame) :
    kindOf format shippedPairs (deviceKey node) frame =
      if frame.arbId = 0x100 ||| node then .request
      else if frame.arbId = 0x000 ||| node then .reply
      else .other := by
  rw [kindOf]
  simp only [requested_iff hformat hnode, responder_isSome_iff hformat hnode]

theorem separate_device (hformat : Formats format) (hnode : node < 256) :
    Separate format shippedPairs (deviceKey node) := by
  intro id hreq
  rw [requested_iff hformat hnode] at hreq
  rw [← Option.not_isSome_iff_eq_none, responder_isSome_iff hformat hnode]
  rintro rfl
  have hbase := congrArg baseOf hreq
  rw [(request_id hnode).1, (response_id hnode).1] at hbase
  cases hbase

theorem keeps_shipped (hformat : Formats format) (request frame : EnrichedFrame) :
    keeps format shippedPairs request frame =
      decide (Binary64.sub frame.kernelTs 1 ≤ request.kernelTs) := by
  have hnone : (shippedPairs.any fun p => p.reaction format frame.arbId = .raises) = false := by
    rw [List.any_eq_false]
    intro p hp
    simpa using no_raise hformat p hp
  rw [keeps, hnone, Bool.false_or]

def exchange (format : String → Nat → Option String) (node : Nat) (s : PolledBus) :
    Exchange.State EnrichedFrame :=
  Exchange.run (kindOf format shippedPairs (deviceKey node)) (keeps format shippedPairs) s.frames

structure Measured (format : String → Nat → Option String) (node : Nat) (s : PolledBus) : Prop where
  matched : (exchange format node s).matched.map (fun y => (y.1.2, y.2.2)) = s.completed node
  pending : ∀ request ∈ s.asked node, ∃ i, (exchange format node s).pending = some (i, request)
  processing : (s.poller node).processing = (s.asked node).isSome

variable {s t : PolledBus} {frame : EnrichedFrame}

theorem exchange_snoc (hframes : t.frames = s.frames ++ [frame]) :
    exchange format node t =
      Exchange.step (kindOf format shippedPairs (deviceKey node)) (keeps format shippedPairs)
        (exchange format node s) frame := by
  rw [exchange, hframes, Exchange.run_snoc]
  rfl

theorem measured_other (hformat : Formats format) (hnode : node ∈ nodes)
    (h : Measured format node s) (hframes : t.frames = s.frames ++ [frame])
    (hkind : kindOf format shippedPairs (deviceKey node) frame = .other)
    (hprompt : s.Prompt frame.kernelTs) (hpoller : t.poller node = s.poller node)
    (hasked : t.asked node = s.asked node) (hcompleted : t.completed node = s.completed node) :
    Measured format node t := by
  refine ⟨?_, ?_, ?_⟩
  · rw [exchange_snoc hframes, Exchange.step, hkind, hcompleted]
    exact h.matched
  · intro request hrequest
    rw [hasked] at hrequest
    obtain ⟨i, hpending⟩ := h.pending request hrequest
    have hkeep := hprompt.2 node hnode request hrequest
    refine ⟨i, ?_⟩
    rw [exchange_snoc hframes, Exchange.step, hkind]
    dsimp only
    rw [hpending, Option.filter_some, keeps_shipped hformat, decide_eq_true hkeep, if_pos rfl]
  · rw [hpoller, hasked]
    exact h.processing

theorem measured_same (h : Measured format node s) (hframes : t.frames = s.frames)
    (hpoller : t.poller node = s.poller node) (hasked : t.asked node = s.asked node)
    (hcompleted : t.completed node = s.completed node) : Measured format node t := by
  have hexchange : exchange format node t = exchange format node s := by
    rw [exchange, hframes]
    rfl
  refine ⟨?_, ?_, ?_⟩
  · rw [hexchange, hcompleted]
    exact h.matched
  · rw [hexchange, hasked]
    exact h.pending
  · rw [hpoller, hasked]
    exact h.processing

theorem measured_request (hformat : Formats format) (hnode : node < 256)
    (h : Measured format node s) (hframes : t.frames = s.frames ++ [frame])
    (hid : frame.arbId = 0x100 ||| node) (hts : Binary64.round frame.kernelTs = frame.kernelTs)
    (hpoller : (t.poller node).processing = true) (hasked : t.asked node = some frame)
    (hcompleted : t.completed node = s.completed node) : Measured format node t := by
  have hkind : kindOf format shippedPairs (deviceKey node) frame = .request := by
    rw [kindOf_device hformat hnode, if_pos hid]
  have hkeep : Binary64.sub frame.kernelTs 1 ≤ frame.kernelTs := by
    have hround : Binary64.sub frame.kernelTs 1 ≤ Binary64.round frame.kernelTs :=
      Binary64.round_mono (by linarith)
    rwa [hts] at hround
  refine ⟨?_, ?_, ?_⟩
  · rw [exchange_snoc hframes, Exchange.step, hkind, hcompleted]
    exact h.matched
  · intro request hrequest
    rw [hasked, Option.mem_some_iff] at hrequest
    subst hrequest
    refine ⟨(exchange format node s).seen, ?_⟩
    rw [exchange_snoc hframes, Exchange.step, hkind]
    dsimp only
    rw [Option.filter_some, keeps_shipped hformat, decide_eq_true hkeep, if_pos rfl]
  · rw [hpoller, hasked]
    rfl

theorem measured_response (hformat : Formats format) (hnode : node < 256)
    (h : Measured format node s) (hframes : t.frames = s.frames ++ [frame])
    (hid : frame.arbId = 0x000 ||| node) {request : EnrichedFrame}
    (hbefore : s.asked node = some request)
    (hpoller : (t.poller node).processing = false) (hasked : t.asked node = none)
    (hcompleted : t.completed node = s.completed node ++ [(request, frame)]) :
    Measured format node t := by
  have hkind : kindOf format shippedPairs (deviceKey node) frame = .reply := by
    have hne : frame.arbId ≠ 0x100 ||| node := by
      intro heq
      have hbase := congrArg baseOf (heq.symm.trans hid)
      rw [(request_id hnode).1, (response_id hnode).1] at hbase
      cases hbase
    rw [kindOf_device hformat hnode, if_neg hne, if_pos hid]
  obtain ⟨i, hpending⟩ := h.pending request hbefore
  refine ⟨?_, ?_, ?_⟩
  · rw [exchange_snoc hframes, Exchange.step, hkind, hcompleted, ← h.matched]
    simp [hpending]
  · rw [hasked]
    exact fun _ hnone => absurd hnone (Option.not_mem_none _)
  · rw [hpoller, hasked]
    rfl

theorem node_lt (hnode : node ∈ nodes) : node < 256 := by
  simp only [nodes, List.mem_cons, List.not_mem_nil, or_false] at hnode
  omega

theorem kindOf_other {m : Nat} (hformat : Formats format) (hnode : node ∈ nodes) (hm : m ∈ nodes)
    (hne : m ≠ node) (hid : frame.arbId = 0x100 ||| m ∨ frame.arbId = 0x000 ||| m) :
    kindOf format shippedPairs (deviceKey node) frame = .other := by
  have hnodeOf : nodeOf frame.arbId = m := by
    obtain hid | hid := hid
    · rw [hid, (request_id (node_lt hm)).2]
    · rw [hid, (response_id (node_lt hm)).2]
  rw [kindOf_device hformat (node_lt hnode), if_neg, if_neg]
  · intro heq
    rw [heq, (response_id (node_lt hnode)).2] at hnodeOf
    exact hne hnodeOf.symm
  · intro heq
    rw [heq, (request_id (node_lt hnode)).2] at hnodeOf
    exact hne hnodeOf.symm

theorem frames_delivered (s : PolledBus) (m : Nat) (ts : ℚ) (pruTsNs : Option Int) :
    (s.step (.poll m true ts pruTsNs)).frames =
      s.frames ++ [sent ((s.poller m).send m).1 ts pruTsNs] := rfl

theorem measured_step (hformat : Formats format) (hnode : node ∈ nodes)
    (h : Measured format node s) (mv : Move) (hin : s.Orderly mv) :
    Measured format node (s.step mv) := by
  cases mv with
  | other f =>
    obtain ⟨hids, hprompt⟩ := hin
    have hkind : kindOf format shippedPairs (deviceKey node) f = .other := by
      rw [kindOf_device hformat (node_lt hnode), if_neg (hids node hnode).1,
        if_neg (hids node hnode).2]
    exact measured_other hformat hnode h rfl hkind hprompt rfl rfl rfl
  | poll m delivered ts pruTsNs =>
    obtain ⟨hm, hkept, hprompt⟩ := hin
    by_cases hne : m = node
    · subst hne
      cases hprocessing : (s.poller m).processing with
      | false =>
        -- the request, which is delivered
        obtain rfl := hkept hprocessing
        have hnone : s.asked m = none := by
          rw [← Option.not_isSome_iff_eq_none, ← h.processing, hprocessing]
          exact Bool.false_ne_true
        refine measured_request hformat (node_lt hm) h (frames_delivered ..) ?_ hprompt.1 ?_ ?_ ?_
        · simp [Poller.send, hprocessing, sent]
        · simp [PolledBus.step, Poller.send, hprocessing]
        · simp [PolledBus.step, Poller.send, hprocessing]
        · simp [PolledBus.step, hnone]
      | true =>
        obtain ⟨request, hasked⟩ := Option.isSome_iff_exists.mp (h.processing ▸ hprocessing)
        cases delivered with
        | true =>
          refine measured_response hformat (node_lt hm) h (frames_delivered ..) ?_ hasked ?_ ?_ ?_
          · simp [Poller.send, hprocessing, sent]
          · simp [PolledBus.step, Poller.send, hprocessing]
          · simp [PolledBus.step, Poller.send, hprocessing]
          · simp [PolledBus.step, hasked]
        | false =>
          refine ⟨h.matched, ?_, ?_⟩
          · simp [PolledBus.step]
          · simp [PolledBus.step, Poller.send, hprocessing]
    · have hpoller : (s.step (.poll m delivered ts pruTsNs)).poller node = s.poller node :=
        Function.update_of_ne (Ne.symm hne) ..
      have hasked : (s.step (.poll m delivered ts pruTsNs)).asked node = s.asked node :=
        Function.update_of_ne (Ne.symm hne) ..
      cases delivered with
      | true =>
        refine measured_other hformat hnode h (frames_delivered ..) ?_ hprompt hpoller hasked ?_
        · apply kindOf_other hformat hnode hm hne
          rw [Poller.send]
          split_ifs
          · exact .inr rfl
          · exact .inl rfl
        · exact Function.update_of_ne (Ne.symm hne) ..
      | false => exact measured_same h rfl hpoller hasked rfl

structure Counted (node : Nat) (s : PolledBus) : Prop where
  asked : ∀ request ∈ s.asked node, (s.poller node).processing = true ∧
    request.arbId = 0x100 ||| node ∧ request.data[2]? = some (.ofNat (s.poller node).counter)
  completed : ∀ poll ∈ s.completed node, poll.1.arbId = 0x100 ||| node ∧
    poll.2.arbId = 0x000 ||| node ∧ poll.1.data[2]? = poll.2.data[2]?

theorem counted_step (h : Counted node s) (mv : Move) : Counted node (s.step mv) := by
  cases mv with
  | other f => exact ⟨h.asked, h.completed⟩
  | poll m delivered ts pruTsNs =>
    by_cases hne : m = node
    · subst hne
      cases hprocessing : (s.poller m).processing with
      | false =>
        have hnone : s.asked m = none := by
          rw [Option.eq_none_iff_forall_ne_some]
          intro request hrequest
          have hon := (h.asked request hrequest).1
          rw [hprocessing] at hon
          cases hon
        refine ⟨?_, ?_⟩
        · intro request hrequest
          cases delivered with
          | true =>
            simp [PolledBus.step, Poller.send, hprocessing] at hrequest
            subst hrequest
            simp [PolledBus.step, Poller.send, hprocessing, sent]
          | false => simp [PolledBus.step] at hrequest
        · intro poll hpoll
          apply h.completed poll
          cases delivered with
          | true => simpa [PolledBus.step, hnone] using hpoll
          | false => exact hpoll
      | true =>
        refine ⟨?_, ?_⟩
        · intro request hrequest
          simp [PolledBus.step, Poller.send, hprocessing] at hrequest
        · intro poll hpoll
          cases delivered with
          | false => exact h.completed poll hpoll
          | true =>
            cases hasked : s.asked m with
            | none => exact h.completed poll (by simpa [PolledBus.step, hasked] using hpoll)
            | some request =>
              obtain ⟨-, hid, hcounter⟩ := h.asked request hasked
              simp [PolledBus.step, hasked, Poller.send, hprocessing] at hpoll
              obtain hold | rfl := hpoll
              · exact h.completed poll hold
              · exact ⟨hid, by simp [sent], hcounter⟩
    · have hpoller : (s.step (.poll m delivered ts pruTsNs)).poller node = s.poller node :=
        Function.update_of_ne (Ne.symm hne) ..
      have hasked : (s.step (.poll m delivered ts pruTsNs)).asked node = s.asked node :=
        Function.update_of_ne (Ne.symm hne) ..
      have hcompleted : (s.step (.poll m delivered ts pruTsNs)).completed node =
          s.completed node := by
        cases delivered with
        | true => exact Function.update_of_ne (Ne.symm hne) ..
        | false => rfl
      refine ⟨?_, ?_⟩
      · rw [hpoller, hasked]
        exact h.asked
      · rw [hcompleted]
        exact h.completed

theorem run_concat (moves : List Move) (mv : Move) :
    PolledBus.run (moves ++ [mv]) = (PolledBus.run moves).step mv := by
  rw [PolledBus.run, List.foldl_append]
  rfl

theorem measured_run (hformat : Formats format) (hnode : node ∈ nodes) (moves : List Move)
    (horderly : Trace.AllSteps PolledBus.step Orderly {} moves) :
    Measured format node (PolledBus.run moves) := by
  induction moves using List.reverseRecOn with
  | nil => exact ⟨rfl, nofun, rfl⟩
  | append_singleton moves mv ih =>
    rw [Trace.allSteps_snoc] at horderly
    rw [run_concat]
    exact measured_step hformat hnode (ih horderly.1) mv horderly.2

theorem counted_run (node : Nat) (moves : List Move) : Counted node (PolledBus.run moves) :=
  List.foldlRecOn (motive := Counted node) moves PolledBus.step ⟨nofun, nofun⟩
    fun _ h mv _ => counted_step h mv

def shipped : LatencyMonitor := { explicit := [sdoPair], patterns := [devicePair] }

/-- The samples under the label of a node are those of its exchange. -/
theorem samples_exchange (hformat : Formats format) (hnode : node < 256) (s : PolledBus) :
    ((LatencyRecord.run format shipped s.frames).samplesOf (deviceKey node)).map Sample.latency =
      (exchange format node s).matched.map fun y => latencyUs y.2.2.kernelTs y.1.2.kernelTs := by
  have hsep : Separate format shipped.pairs (deviceKey node) := separate_device hformat hnode
  have hrefines := LatencyRecord.run_refines hsep rfl s.frames
  rw [hrefines.samples, List.map_filterMap]
  have hone : ∀ y ∈ (exchange format node s).matched,
      (sampleOf format shippedPairs (deviceKey node) y).map Sample.latency =
        some (latencyUs y.2.2.kernelTs y.1.2.kernelTs) := by
    intro y hy
    have hreply := ((mem_matched_iff s.frames y.1.1 y.2.1 y.1.2 y.2.2).mp hy).is_reply
    have hsome : (responder format shippedPairs (deviceKey node) y.2.2.arbId).isSome := by
      rw [responder_isSome_iff hformat hnode]
      rw [kindOf_device hformat hnode] at hreply
      split_ifs at hreply with hreq hresp
      exact hresp
    obtain ⟨p, hp⟩ := Option.isSome_iff_exists.mp hsome
    rw [sampleOf, hp]
    rfl
  exact (List.filterMap_congr hone).trans (congrFun List.filterMap_eq_map' _)

/-- With the shipped pairs, whatever the interleaving of the polls of the six nodes with each other
and with other traffic, and however many responses get lost: if no request does and each response is
there within a second, the monitor has under the label of each node the delays of its last hundred
completed polls in order, each between a request and the response to this very poll. -/
theorem polls_measured (hformat : Formats format) (moves : List Move)
    (horderly : Trace.AllSteps PolledBus.step Orderly {} moves) (hnode : node ∈ nodes) :
    let s := PolledBus.run moves
    ((shipped.run format s.frames).meas (deviceKey node)).items =
        ((s.completed node).map fun poll =>
          latencyUs poll.2.kernelTs poll.1.kernelTs).rtake 100 ∧
      ∀ poll ∈ s.completed node, poll.1.arbId = 0x100 ||| node ∧ poll.2.arbId = 0x000 ||| node ∧
        poll.1.data[2]? = poll.2.data[2]? := by
  intro s
  refine ⟨?_, (counted_run node moves).completed⟩
  have hmatched := (measured_run hformat hnode moves horderly).matched
  have hempty : (shipped.meas (deviceKey node)).items = [] := rfl
  rw [LatencyRecord.meas_run, hempty, List.nil_append, samples_exchange hformat (node_lt hnode),
    ← hmatched, List.map_map]
  rfl

/-- `str.format` for the shipped template. -/
def formatDevice (template : String) (node : Nat) : Option String :=
  if template = deviceTemplate then some (deviceLabel node) else formatDefault template node

def twoPolls : List Move :=
  [.poll 1 true 1 none, .poll 2 true (5 / 4) none, .other ⟨0x200, 0, [], false, none, 3 / 2, 0⟩,
    .poll 2 false (3 / 2) none, .poll 1 true (7 / 4) none, .poll 2 true 2 none,
    .poll 2 true (9 / 4) none]

theorem polls_measured_twoPolls :
    let s := PolledBus.run twoPolls
    ((shipped.run formatDevice s.frames).meas (deviceKey 2)).items =
        ((s.completed 2).map fun poll => latencyUs poll.2.kernelTs poll.1.kernelTs).rtake 100 ∧
      ∀ poll ∈ s.completed 2, poll.1.arbId = 0x100 ||| 2 ∧ poll.2.arbId = 0x000 ||| 2 ∧
        poll.1.data[2]? = poll.2.data[2]? :=
  polls_measured (fun node => if_pos rfl) twoPolls (by decide +kernel) (by decide)

/-- A lost response and then a lost request: the next response is taken for one to the old request,
although no poll was completed. -/
example :
    let s := PolledBus.run [.poll 1 true 1 none, .poll 1 false (5 / 4) none,
      .poll 1 false (3 / 2) none, .poll 1 true (7 / 4) none]
    ((shipped.run formatDevice s.frames).meas (deviceKey 1)).items = [750000] ∧
      s.completed 1 = [] := by
  decide +kernel

end Polling
end CanSniffer
