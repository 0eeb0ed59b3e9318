import Nfrp.Lib.Ip
import Nfrp.Lib.Maps
import Nfrp.Lib.Rotation
import Nfrp.Lib.Runs

/-!
# What the server makes of two NATs

The addresses a peer was seen under tell its kind of NAT, and the two kinds tell
which side sends first and how.  What worked before is tried again.
-/

namespace Nfrp.NatHole

open Lib

def v4Text (addr : Ipv4Addr) : String :=
  let octet (i : Nat) := toString ((addr >>> (24 - 8 * i)).toNat % 256)
  s!"{octet 0}.{octet 1}.{octet 2}.{octet 3}"

def groupsText (groups : List Nat) : String :=
  ":".intercalate (groups.map fun g => String.ofList (Nat.toDigits 16 g))

/-- The first of the longest runs of zeros, as its start and its length. -/
def longestZeros (groups : List Nat) : Nat × Nat :=
  (List.range groups.length).foldl (fun longest start =>
    let length := ((groups.drop start).takeWhile (· = 0)).length
    if longest.2 < length then (start, length) else longest) (0, 0)

def ipText : IpAddr → String
  | .v4 addr => v4Text addr
  | .v6 addr =>
    if addr >>> 32 = 0xffff then "::ffff:" ++ v4Text (addr.truncate 32)
    else
      let groups := (List.range 8).map fun i => (addr >>> (112 - 16 * i)).toNat % 65536
      let (start, length) := longestZeros groups
      if 1 < length then groupsText (groups.take start) ++ "::" ++ groupsText (groups.drop (start + length))
      else groupsText groups

/-- An address is a socket address, or a name and a port. -/
def splitHostPort (addr : String) : Except String (String × String) :=
  match SocketAddr.parse addr.toList with
  | some sa => .ok (ipText sa.ip, toString sa.port)
  | none =>
    match rsplitOnce ':' addr.toList with
    | some (host, port) =>
      let host := (host.dropWhile (· = '[')).rdropWhile (· = ']')
      if host ≠ [] ∧ (parseUnsigned 65535 port).isSome then .ok (String.ofList host, String.ofList port)
      else .error s!"invalid address: {addr}"
    | none => .error s!"invalid address: {addr}"

def parseIps (addrs : List String) : List String :=
  addrs.filterMap fun a => (splitHostPort a).toOption.map (·.1)

inductive NatType where
  | easyNAT
  | hardNAT
  deriving DecidableEq, Repr

def NatType.text : NatType → String
  | easyNAT => "EasyNAT"
  | hardNAT => "HardNAT"

inductive Behavior where
  | noChange
  | ipChanged
  | portChanged
  | bothChanged
  deriving DecidableEq, Repr

def Behavior.text : Behavior → String
  | noChange => "BehaviorNoChange"
  | ipChanged => "BehaviorIPChanged"
  | portChanged => "BehaviorPortChanged"
  | bothChanged => "BehaviorBothChanged"

structure NatFeature where
  natType : NatType := .easyNAT
  behavior : Behavior := .noChange
  portsDifference : Int := 0
  regularPortsChange : Bool := false
  publicNetwork : Bool := false

structure Seen where
  baseIp : String := ""
  basePort : String := ""
  portMax : Int := 0
  portMin : Int := 0
  ipChanged : Bool := false
  portChanged : Bool := false
  publicNetwork : Bool := false

def Seen.read (localIps : List String) (seen : Seen) (addr : String) : Except String Seen := do
  let (ip, port) ← splitHostPort addr
  match parseUnsigned 65535 port.toList with
  | none => throw s!"invalid port in {addr}"
  | some portNum =>
    let portNum : Int := portNum
    let publicNetwork := seen.publicNetwork || localIps.contains ip
    if seen.baseIp = "" then
      return { seen with publicNetwork, baseIp := ip, basePort := port, portMax := portNum, portMin := portNum }
    else
      return { seen with
        publicNetwork
        portMax := max seen.portMax portNum
        portMin := min seen.portMin portNum
        ipChanged := seen.ipChanged || seen.baseIp ≠ ip
        portChanged := seen.portChanged || seen.basePort ≠ port }

def classifyNatFeature (addresses localIps : List String) : Except String NatFeature := do
  if addresses.length ≤ 1 then throw "not enough addresses"
  let seen ← addresses.foldlM (Seen.read localIps) {}
  let publicNetwork := seen.publicNetwork
  match seen.ipChanged, seen.portChanged with
  | true, true => return { natType := .hardNAT, behavior := .bothChanged, publicNetwork }
  | true, false => return { natType := .hardNAT, behavior := .ipChanged, publicNetwork }
  | false, true =>
    let portsDifference := seen.portMax - seen.portMin
    let regularPortsChange := 1 ≤ portsDifference ∧ portsDifference ≤ 5
    return { natType := .hardNAT, behavior := .portChanged, portsDifference, regularPortsChange, publicNetwork }
  | false, false => return { publicNetwork }

def classifyFeatureCount (features : List NatFeature) : Nat × Nat × Nat :=
  (features.countP (·.natType = .easyNAT), features.countP (·.natType = .hardNAT),
    features.countP fun f => f.natType = .hardNAT ∧ f.regularPortsChange)

inductive HoleRole where
  | unset
  | sender
  | receiver
  deriving DecidableEq, Repr

def HoleRole.text : HoleRole → String
  | unset => ""
  | sender => "sender"
  | receiver => "receiver"

structure RecommandBehavior where
  role : HoleRole
  ttl : Int
  sendDelayMs : Int
  portsRangeNumber : Int
  portsRandomNumber : Int
  listenRandomPorts : Int
  deriving DecidableEq, Repr

def mode0 : List (RecommandBehavior × RecommandBehavior) :=
  [(⟨.sender, 0, 0, 0, 0, 0⟩, ⟨.receiver, 7, 0, 0, 0, 0⟩),
    (⟨.receiver, 7, 0, 0, 0, 0⟩, ⟨.sender, 0, 0, 0, 0, 0⟩),
    (⟨.sender, 0, 0, 0, 0, 0⟩, ⟨.receiver, 4, 0, 0, 0, 0⟩),
    (⟨.receiver, 4, 0, 0, 0, 0⟩, ⟨.sender, 0, 0, 0, 0, 0⟩),
    (⟨.sender, 0, 0, 0, 0, 0⟩, ⟨.receiver, 0, 0, 0, 0, 0⟩),
    (⟨.receiver, 0, 0, 0, 0, 0⟩, ⟨.sender, 0, 0, 0, 0, 0⟩),
    (⟨.sender, 0, 5000, 0, 0, 0⟩, ⟨.receiver, 0, 0, 0, 0, 0⟩),
    (⟨.sender, 0, 10000, 0, 0, 0⟩, ⟨.receiver, 0, 0, 0, 0, 0⟩),
    (⟨.receiver, 0, 0, 0, 0, 0⟩, ⟨.sender, 0, 5000, 0, 0, 0⟩),
    (⟨.receiver, 0, 0, 0, 0, 0⟩, ⟨.sender, 0, 10000, 0, 0, 0⟩)]

def mode1 : List (RecommandBehavior × RecommandBehavior) :=
  [(⟨.sender, 0, 0, 0, 0, 0⟩, ⟨.receiver, 7, 0, 10, 0, 0⟩),
    (⟨.sender, 0, 2000, 0, 0, 0⟩, ⟨.receiver, 7, 0, 10, 0, 0⟩),
    (⟨.sender, 0, 0, 0, 0, 0⟩, ⟨.receiver, 4, 0, 10, 0, 0⟩),
    (⟨.sender, 0, 2000, 0, 0, 0⟩, ⟨.receiver, 4, 0, 10, 0, 0⟩),
    (⟨.sender, 0, 0, 0, 0, 0⟩, ⟨.receiver, 0, 0, 10, 0, 0⟩),
    (⟨.sender, 0, 2000, 0, 0, 0⟩, ⟨.receiver, 0, 0, 10, 0, 0⟩)]

def mode2 : List (RecommandBehavior × RecommandBehavior) :=
  [(⟨.sender, 0, 3000, 0, 1000, 0⟩, ⟨.receiver, 7, 0, 0, 0, 256⟩),
    (⟨.sender, 0, 3000, 0, 1000, 0⟩, ⟨.receiver, 4, 0, 0, 0, 256⟩),
    (⟨.sender, 0, 3000, 0, 1000, 0⟩, ⟨.receiver, 0, 0, 0, 0, 256⟩)]

def mode3 : List (RecommandBehavior × RecommandBehavior) :=
  [(⟨.sender, 0, 0, 10, 0, 0⟩, ⟨.receiver, 7, 0, 10, 0, 0⟩),
    (⟨.sender, 0, 0, 10, 0, 0⟩, ⟨.receiver, 4, 0, 10, 0, 0⟩),
    (⟨.sender, 0, 0, 10, 0, 0⟩, ⟨.receiver, 0, 0, 10, 0, 0⟩),
    (⟨.receiver, 7, 0, 10, 0, 0⟩, ⟨.sender, 0, 0, 10, 0, 0⟩),
    (⟨.receiver, 4, 0, 10, 0, 0⟩, ⟨.sender, 0, 0, 10, 0, 0⟩),
    (⟨.receiver, 0, 0, 10, 0, 0⟩, ⟨.sender, 0, 0, 10, 0, 0⟩)]

def mode4 : List (RecommandBehavior × RecommandBehavior) :=
  [(⟨.sender, 0, 3000, 0, 1000, 0⟩, ⟨.receiver, 7, 0, 2, 0, 256⟩),
    (⟨.sender, 0, 3000, 0, 1000, 0⟩, ⟨.receiver, 4, 0, 2, 0, 256⟩),
    (⟨.sender, 0, 3000, 0, 1000, 0⟩, ⟨.receiver, 0, 0, 2, 0, 256⟩)]

def behaviorsByMode : Nat → List (RecommandBehavior × RecommandBehavior)
  | 1 => mode1
  | 2 => mode2
  | 3 => mode3
  | 4 => mode4
  | _ => mode0

structure BehaviorScore where
  mode : Nat
  index : Nat
  score : Int
  deriving DecidableEq, Repr

structure HoleRecords where
  scores : List BehaviorScore
  lastUpdate : Nat

def scoresByMode (mode : Nat) (default : Int) : List BehaviorScore :=
  (behaviorsByMode mode).mapIdx fun index _ => { mode, index, score := default }

def scoresByMode2 (mode : Nat) (senderScore receiverScore : Int) : List BehaviorScore :=
  (behaviorsByMode mode).mapIdx fun index pair =>
    { mode, index, score := if pair.1.role = .sender then senderScore else receiverScore }

namespace HoleRecords

def new (c v : NatFeature) (now : Nat) : HoleRecords :=
  let (easy, hard, regular) := classifyFeatureCount [c, v]
  let appendMode0 :=
    if c.publicNetwork then scoresByMode2 0 0 1
    else if v.publicNetwork then scoresByMode2 0 1 0
    else scoresByMode 0 0
  let scores :=
    if easy = 2 then appendMode0
    else if hard = 1 ∧ regular = 1 then scoresByMode 1 0 ++ scoresByMode 2 0 ++ appendMode0
    else if hard = 1 ∧ regular = 0 then scoresByMode 2 0 ++ scoresByMode 1 0 ++ appendMode0
    else if hard = 2 ∧ regular = 2 then scoresByMode 3 0 ++ scoresByMode 4 0
    else if hard = 2 ∧ regular = 1 then scoresByMode 4 0
    else scoresByMode 0 1 ++ scoresByMode 1 1 ++ scoresByMode 3 1
  { scores, lastUpdate := now }

/-- The place of the first of the highest scores. -/
def best (scores : List BehaviorScore) : Nat :=
  (List.range scores.length).foldl (fun best i =>
    if (scores[best]?.map (·.score)).getD 0 < (scores[i]?.map (·.score)).getD 0 then i else best) 0

/-- What is recommended counts for less the next time. -/
def recommend (r : HoleRecords) (now : Nat) : (Nat × Nat) × HoleRecords :=
  let best := best r.scores
  match r.scores[best]? with
  | none => ((0, 0), r)
  | some s =>
    ((s.mode, s.index), { scores := r.scores.set best { s with score := s.score - 1 }, lastUpdate := now })

def reportSuccess (r : HoleRecords) (mode index now : Nat) : HoleRecords :=
  let scores :=
    match r.scores.findIdx? fun s => s.mode = mode ∧ s.index = index with
    | none => r.scores
    | some i => r.scores.modify i fun s => { s with score := min (s.score + 2) 10 }
  { scores, lastUpdate := now }

/-- The score at a place. -/
def scoreAt (scores : List BehaviorScore) (i : Nat) : Int := (scores[i]?.map (·.score)).getD 0

theorem best_spec {scores : List BehaviorScore} (isSome : scores ≠ []) :
    best scores < scores.length ∧ ∀ i < scores.length, scoreAt scores i ≤ scoreAt scores (best scores) := by
  have upTo : ∀ n ≤ scores.length, 0 < n →
      let found := (List.range n).foldl (fun best i =>
        if scoreAt scores best < scoreAt scores i then i else best) 0
      found < n ∧ ∀ i < n, scoreAt scores i ≤ scoreAt scores found := by
    intro n inside positive
    induction n with
    | zero => omega
    | succ n ih =>
      rw [List.range_succ, List.foldl_append]
      cases n with
      | zero => simp [scoreAt]
      | succ n =>
        obtain ⟨smaller, highest⟩ := ih (by omega) (by omega)
        dsimp only [List.foldl_cons, List.foldl_nil]
        split
        next higher =>
          refine ⟨by omega, fun i below => ?_⟩
          rcases Nat.lt_succ_iff_lt_or_eq.mp below with earlier | rfl
          · exact (highest i earlier).trans higher.le
          · exact le_rfl
        next lower =>
          refine ⟨by omega, fun i below => ?_⟩
          rcases Nat.lt_succ_iff_lt_or_eq.mp below with earlier | rfl
          · exact highest i earlier
          · exact Int.not_lt.mp lower
  exact upTo scores.length le_rfl (List.length_pos_iff.mpr isSome)

/-- The score of one of the ways is another one. -/
def rescored (r : HoleRecords) (k : Nat) (s : BehaviorScore) (score : Int) (now : Nat) : HoleRecords where
  scores := r.scores.set k { s with score }
  lastUpdate := now

section

variable {r : HoleRecords} {s : BehaviorScore} {i k : Nat} {score : Int} {now : Nat}

theorem scoreAt_of_getElem? (found : r.scores[k]? = some s) : scoreAt r.scores k = s.score := by
  rw [scoreAt, found]
  rfl

theorem scoreAt_rescored (found : r.scores[k]? = some s) : scoreAt (r.rescored k s score now).scores k = score := by
  obtain ⟨inside, -⟩ := List.getElem?_eq_some_iff.mp found
  rw [scoreAt, rescored, List.getElem?_set_self inside]
  rfl

theorem scoreAt_rescored_ne (other : i ≠ k) : scoreAt (r.rescored k s score now).scores i = scoreAt r.scores i := by
  rw [scoreAt, rescored, List.getElem?_set_ne other.symm]
  rfl

/-- The ways stay where they are. -/
theorem way_rescored (found : r.scores[k]? = some s) :
    (r.rescored k s score now).scores[i]?.map (fun s => (s.mode, s.index)) =
      r.scores[i]?.map fun s => (s.mode, s.index) := by
  rw [rescored, List.getElem?_set]
  split
  next same =>
    subst same
    rw [if_pos (List.getElem?_eq_some_iff.mp found).1, found]
    rfl
  next => rfl

theorem recommend_cases (isSome : r.scores ≠ []) (now : Nat) :
    ∃ k s, r.scores[k]? = some s ∧ (∀ i < r.scores.length, scoreAt r.scores i ≤ s.score) ∧
      r.recommend now = ((s.mode, s.index), r.rescored k s (s.score - 1) now) := by
  obtain ⟨inside, highest⟩ := best_spec isSome
  have found : r.scores[best r.scores]? = some r.scores[best r.scores] := List.getElem?_eq_getElem inside
  rw [scoreAt_of_getElem? found] at highest
  refine ⟨_, _, found, highest, ?_⟩
  simp only [recommend, found, rescored]

theorem reportSuccess_cases (r : HoleRecords) (mode index now : Nat) :
    (r.reportSuccess mode index now).scores = r.scores ∨
      ∃ k s, r.scores[k]? = some s ∧ r.reportSuccess mode index now = r.rescored k s (min (s.score + 2) 10) now := by
  rw [reportSuccess]
  cases found : r.scores.findIdx? fun s => s.mode = mode ∧ s.index = index with
  | none => exact .inl rfl
  | some k =>
    obtain ⟨inside, -⟩ := List.findIdx?_eq_some_iff_getElem.mp found
    refine .inr ⟨k, r.scores[k], List.getElem?_eq_getElem inside, ?_⟩
    simp only [rescored, List.modify_eq_set_getElem?, List.getElem?_eq_getElem inside]
    rfl

end

/-- There is something to recommend, and all of it is known. -/
structure Sound (r : HoleRecords) : Prop where
  isSome : r.scores ≠ []
  known : ∀ s ∈ r.scores, s.index < (behaviorsByMode s.mode).length
  capped : ∀ s ∈ r.scores, s.score ≤ 10

theorem Sound.rescored {r : HoleRecords} (sound : r.Sound) {k : Nat} {s : BehaviorScore} (found : r.scores[k]? = some s)
    {score : Int} (small : score ≤ 10) (now : Nat) : (r.rescored k s score now).Sound where
  isSome empty := sound.isSome ((List.set_eq_nil_iff k _).mp empty)
  known other member := by
    rcases List.mem_or_eq_of_mem_set member with old | rfl
    · exact sound.known other old
    · exact sound.known s (List.mem_of_getElem? found)
  capped other member := by
    rcases List.mem_or_eq_of_mem_set member with old | rfl
    · exact sound.capped other old
    · exact small

theorem Sound.recommend {r : HoleRecords} (sound : r.Sound) (now : Nat) : (r.recommend now).2.Sound := by
  obtain ⟨k, s, found, -, same⟩ := recommend_cases sound.isSome now
  have small := sound.capped s (List.mem_of_getElem? found)
  rw [same]
  exact sound.rescored found (by omega) now

theorem Sound.reportSuccess {r : HoleRecords} (sound : r.Sound) (mode index now : Nat) :
    (r.reportSuccess mode index now).Sound := by
  rcases reportSuccess_cases r mode index now with same | ⟨k, s, found, same⟩
  · exact ⟨same ▸ sound.isSome, same ▸ sound.known, same ▸ sound.capped⟩
  · rw [same]
    exact sound.rescored found (min_le_right _ _) now

/-- A way of its mode, with a score of one at most. -/
def Fresh (scores : List BehaviorScore) : Prop :=
  scores ≠ [] ∧ ∀ s ∈ scores, s.index < (behaviorsByMode s.mode).length ∧ 0 ≤ s.score ∧ s.score ≤ 1

theorem Fresh.append {scores more : List BehaviorScore} (first : Fresh scores) (second : Fresh more) :
    Fresh (scores ++ more) :=
  ⟨List.append_ne_nil_of_left_ne_nil first.1 _, List.forall_mem_append.mpr ⟨first.2, second.2⟩⟩

theorem behaviorsByMode_ne_nil (mode : Nat) : behaviorsByMode mode ≠ [] := by
  unfold behaviorsByMode
  split <;> exact List.cons_ne_nil _ _

theorem fresh_mapIdx (mode : Nat) {score : RecommandBehavior × RecommandBehavior → Int}
    (small : ∀ pair, 0 ≤ score pair ∧ score pair ≤ 1) :
    Fresh ((behaviorsByMode mode).mapIdx fun index pair => { mode, index, score := score pair }) := by
  refine ⟨fun empty => behaviorsByMode_ne_nil mode (List.mapIdx_eq_nil_iff.mp empty), fun s member => ?_⟩
  obtain ⟨index, inside, rfl⟩ := List.mem_mapIdx.mp member
  exact ⟨inside, small _⟩

theorem fresh_new (c v : NatFeature) (now : Nat) : Fresh (new c v now).scores := by
  have zero (mode : Nat) : Fresh (scoresByMode mode 0) := fresh_mapIdx mode fun _ => by decide
  have one (mode : Nat) : Fresh (scoresByMode mode 1) := fresh_mapIdx mode fun _ => by decide
  have two (first second : Int) (small : 0 ≤ first ∧ first ≤ 1 ∧ 0 ≤ second ∧ second ≤ 1) :
      Fresh (scoresByMode2 0 first second) := by
    apply fresh_mapIdx
    intro pair
    split
    · exact ⟨small.1, small.2.1⟩
    · exact small.2.2
  have direct : Fresh (if c.publicNetwork then scoresByMode2 0 0 1
      else if v.publicNetwork then scoresByMode2 0 1 0 else scoresByMode 0 0) := by
    split
    · exact two 0 1 (by decide)
    split
    · exact two 1 0 (by decide)
    · exact zero 0
  dsimp only [new]
  split
  · exact direct
  split
  · exact ((zero 1).append (zero 2)).append direct
  split
  · exact ((zero 2).append (zero 1)).append direct
  split
  · exact (zero 3).append (zero 4)
  split
  · exact zero 4
  · exact ((one 0).append (one 1)).append (one 3)

theorem sound_new (c v : NatFeature) (now : Nat) : (new c v now).Sound where
  isSome := (fresh_new c v now).1
  known s member := ((fresh_new c v now).2 s member).1
  capped s member := ((fresh_new c v now).2 s member).2.2.trans (by decide)

inductive Use where
  | recommend (now : Nat)
  | reportSuccess (mode index now : Nat)

def Use.isRecommend : Use → Bool
  | .recommend _ => true
  | .reportSuccess .. => false

def use (r : HoleRecords) : Use → HoleRecords
  | .recommend now => (r.recommend now).2
  | .reportSuccess mode index now => r.reportSuccess mode index now

/-- A way that leads the scores of the others is tried in so many turns. -/
theorem Sound.tried {r : HoleRecords} (sound : r.Sound) {i : Nat} {way : Nat × Nat}
    (found : r.scores[i]?.map (fun s => (s.mode, s.index)) = some way) {uses : List Use}
    (many : lead (Finset.range r.scores.length) (scoreAt r.scores) i + 2 * uses.countP (!·.isRecommend) <
      uses.countP (·.isRecommend)) :
    ∃ before now after, uses = before ++ .recommend now :: after ∧ ((run use r before).recommend now).1 = way := by
  induction uses generalizing r with
  | nil => exact absurd many (Nat.not_lt_zero _)
  | cons e uses ih =>
    have inside : i < r.scores.length := by
      obtain ⟨s, isThere, -⟩ := Option.map_eq_some_iff.mp found
      exact (List.getElem?_eq_some_iff.mp isThere).1
    suffices later : ((∃ now, e = .recommend now ∧ (r.recommend now).1 = way) ∨
        ∃ before now after, uses = before ++ .recommend now :: after ∧
          ((run use (r.use e) before).recommend now).1 = way) by
      rcases later with ⟨now, rfl, isWay⟩ | ⟨before, now, after, rfl, isWay⟩
      · exact ⟨[], now, uses, rfl, isWay⟩
      · exact ⟨e :: before, now, after, rfl, isWay⟩
    cases e with
    | recommend now =>
      obtain ⟨k, s, isThere, highest, same⟩ := recommend_cases sound.isSome now
      by_cases own : k = i
      · left
        subst own
        rw [isThere] at found
        exact ⟨now, rfl, same ▸ Option.some.inj found⟩
      · right
        have next : r.use (.recommend now) = r.rescored k s (s.score - 1) now := congrArg Prod.snd same
        have member := Finset.mem_range.mpr (List.getElem?_eq_some_iff.mp isThere).1
        have served := @lead_of_served _ _ _ _ (scoreAt (r.rescored k s (s.score - 1) now).scores) _ _ member own
          (scoreAt_of_getElem? isThere ▸ highest i inside)
          (scoreAt_of_getElem? isThere ▸ scoreAt_rescored isThere) (fun j other => scoreAt_rescored_ne other)
        apply ih
        · exact sound.recommend now
        · rw [next, way_rescored isThere]
          exact found
        · rw [next, HoleRecords.rescored, List.length_set]
          rw [List.countP_cons_of_neg (by simp [Use.isRecommend]), List.countP_cons_of_pos (by rfl)] at many
          change lead _ (scoreAt (r.rescored k s (s.score - 1) now).scores) i + _ < _
          omega
    | reportSuccess mode index now =>
      right
      rw [List.countP_cons_of_pos (by rfl), List.countP_cons_of_neg (by simp [Use.isRecommend])] at many
      rcases reportSuccess_cases r mode index now with same | ⟨k, s, isThere, same⟩
      · apply ih
        · exact sound.reportSuccess mode index now
        · rw [use, same]
          exact found
        · rw [use, same]
          omega
      · have small := sound.capped s (List.mem_of_getElem? isThere)
        have risen : scoreAt r.scores k ≤ scoreAt (r.rescored k s (min (s.score + 2) 10) now).scores k ∧
            scoreAt (r.rescored k s (min (s.score + 2) 10) now).scores k ≤ scoreAt r.scores k + (2 : Nat) := by
          rw [scoreAt_rescored isThere, scoreAt_of_getElem? isThere]
          omega
        have raised := lead_of_raised (s := Finset.range r.scores.length) (i := i) risen
          fun j other => scoreAt_rescored_ne other
        apply ih
        · exact sound.reportSuccess mode index now
        · rw [use, same, way_rescored isThere]
          exact found
        · rw [use, same, HoleRecords.rescored, List.length_set]
          change lead _ (scoreAt (r.rescored k s (min (s.score + 2) 10) now).scores) i + _ < _
          omega

/-- However the reports come in, each way that suits the two NATs is tried before the others have
been tried twice, and once more for each point that is reported for them. -/
theorem tried_of_new (c v : NatFeature) (start : Nat) {s : BehaviorScore} (listed : s ∈ (new c v start).scores)
    {uses : List Use}
    (many : 2 * ((new c v start).scores.length + uses.countP (!·.isRecommend)) ≤ uses.countP (·.isRecommend)) :
    ∃ before now after, uses = before ++ .recommend now :: after ∧
      ((run use (new c v start) before).recommend now).1 = (s.mode, s.index) := by
  obtain ⟨i, found⟩ := List.mem_iff_getElem?.mp listed
  have fresh := (fresh_new c v start).2
  have close : ∀ j ∈ Finset.range (new c v start).scores.length,
      scoreAt (new c v start).scores j ≤ scoreAt (new c v start).scores i + (1 : Nat) := by
    intro j member
    have isThere := List.getElem?_eq_getElem (Finset.mem_range.mp member)
    rw [scoreAt_of_getElem? isThere, scoreAt_of_getElem? found]
    have high := (fresh _ (List.mem_of_getElem? isThere)).2.2
    have low := (fresh s listed).2.1
    omega
  have room := lead_le (Finset.mem_range.mpr (List.getElem?_eq_some_iff.mp found).1) close
  rw [Finset.card_range] at room
  apply (sound_new c v start).tried (i := i)
  · rw [found]
    rfl
  · omega

theorem tried_of_new_easy :
    ∃ before now after, List.replicate 20 (Use.recommend 5) = before ++ .recommend now :: after ∧
      ((run use (new {} {} 0) before).recommend now).1 = (0, 3) :=
  tried_of_new {} {} 0 (s := ⟨0, 3, 0⟩) (by decide) (by decide)

end HoleRecords

abbrev Records := AList fun _ : String => HoleRecords

def fingerprintKey (c v : NatFeature) (cAddrs vAddrs : List String) : String :=
  let vIp := (parseIps vAddrs).headD ""
  let cIp := (parseIps cAddrs).headD ""
  s!"{vIp}|{v.natType.text}|{v.behavior.text}|{v.regularPortsChange}|{cIp}|{c.natType.text}|{c.behavior.text}|{c.regularPortsChange}"

/-- What the two sides do: the client's part first.  In three of the modes the sides
are swapped where that makes the right one the sender. -/
def getRecommandBehaviors (records : Records) (reserve now : Nat) (key : String) (c v : NatFeature) :
    (Nat × Nat × RecommandBehavior × RecommandBehavior) × Records :=
  let kept := retain (fun _ r => reserve = 0 ∨ now - r.lastUpdate < reserve) records
  let ((mode, index), updated) := ((kept.lookup key).getD (HoleRecords.new c v now)).recommend now
  let nothing : RecommandBehavior := ⟨.unset, 0, 0, 0, 0, 0⟩
  let (cBehavior, vBehavior) := ((behaviorsByMode mode)[index]?).getD (nothing, nothing)
  let swapped : Bool :=
    match mode with
    | 1 => c.natType = .easyNAT
    | 2 => c.natType = .hardNAT
    | 4 => ¬c.regularPortsChange
    | _ => false
  let sides := if swapped then (vBehavior, cBehavior) else (cBehavior, vBehavior)
  ((mode, index, sides.1, sides.2), kept.insert key updated)

end Nfrp.NatHole
