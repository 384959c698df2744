import EspTree.Link

/-!
# A command is executed at most once

`send_command_to_leaf` numbers a command by the counter of its first fragment, its `tx_base`, and the
retries repeat the fragments under their first counters.  The leaf keeps the fragments of one command
for each entity, and the `tx_base` of the last command that the entity completed.

Three facts carry the result: the `tx_base`s of a session grow, a buffer holds parts of one command,
and an entity completes commands in the order of their `tx_base`s.  They need two things of a run.  The
number of fragments has to fit the byte that carries it: a command of 256 fragments and more claims to
have fewer.  And the leaf must not be given a command again that it had executed before it restarted: the
bridge keeps a command in its queue until it is acknowledged, also when the leaf joins anew, but the leaf
remembers only in RAM what it has executed.
-/

namespace EspTree

open Wire

variable {η : Type}

/-- A command: the counter of its first fragment, its entity and its value. -/
structure Given where
  base : UInt32
  index : UInt8
  value : Bytes
  deriving DecidableEq

def Effect.execution? : Effect → Option Given
  | .command _ base entity _ value => some ⟨base, entity, value⟩
  | _ => none

/-- The commands that were passed to `command_fn_`, newest first. -/
def executions (effects : List Effect) : List Given := effects.filterMap Effect.execution?

/-! ## Fragments of a command -/

/-- The limits of a leaf that has joined a bridge with these flags. -/
def joinedLimits (flags : UInt8) : FragmentLimits :=
  FragmentLimits.ofMtu (if hasV2Mtu flags then v2MaxPayload else v1MaxPayload)

/-- The sizes of the fragments that a bridge with these flags sends. -/
def FragmentSize (flags : UInt8) (size : Nat) : Prop := size = 220 ∨ size = 1440 ∧ hasV2Mtu flags

section

variable {flags : UInt8} {size size' : Nat}

theorem FragmentSize.pos (h : FragmentSize flags size) : 0 < size := by
  rcases h with rfl | ⟨rfl, -⟩ <;> omega

/-- Fragments of either size are addressed with 16 bits. -/
theorem FragmentSize.lt (h : FragmentSize flags size) : size < 2 ^ 16 := by
  rcases h with rfl | ⟨rfl, -⟩ <;> omega

/-- The leaf has room for such a fragment. -/
theorem FragmentSize.le (h : FragmentSize flags size) : size ≤ (joinedLimits flags).maxEntityFragment := by
  unfold joinedLimits
  rcases h with rfl | ⟨rfl, hv2⟩
  · split <;> decide
  · rw [if_pos hv2]
    decide

/-- Fragments of two sizes are equally many if the value fits one of them. -/
theorem slice_of_chunkCount_eq (h : FragmentSize flags size) (h' : FragmentSize flags size')
    {value : Bytes} (hcount : chunkCount value.length size = chunkCount value.length size') {i : Nat}
    (hi : i < chunkCount value.length size) :
    slice value (i * size) size = slice value (i * size') size' := by
  have hone (hne : size ≠ size') : value.length ≤ 220 ∧ i = 0 := by
    unfold chunkCount at hcount hi
    rcases h with rfl | ⟨rfl, -⟩ <;> rcases h' with rfl | ⟨rfl, -⟩ <;> omega
  by_cases hsame : size = size'
  · rw [hsame]
  · obtain ⟨hlen, rfl⟩ := hone hsame
    have hwhole {n : Nat} (hn : FragmentSize flags n) : slice value (0 * n) n = value := by
      rw [Nat.zero_mul, slice, List.drop_zero, List.take_of_length_le]
      rcases hn with rfl | ⟨rfl, -⟩ <;> omega
    rw [hwhole h, hwhole h']

/-- A buffer that was filled with fragments of one size can be read with the other one, if the value
has as many fragments in both. -/
theorem FragmentAssembly.Holds.resize {a : FragmentAssembly} {value : Bytes} {slot : Nat}
    (ha : a.Holds value size slot) (h : FragmentSize flags size) (h' : FragmentSize flags size')
    (hcount : chunkCount value.length size = chunkCount value.length size') :
    a.Holds value size' slot := by
  refine ⟨ha.active, ha.count.trans hcount, ?_, ha.lengths.trans hcount, ha.received.trans hcount,
    fun i hi => ?_⟩
  · rw [← hcount]
    exact ha.data
  · obtain ⟨hlt, hlength, hslice⟩ := ha.parts i hi
    rw [← slice_of_chunkCount_eq h h' hcount hlt, ← hcount]
    exact ⟨hlt, hlength, hslice⟩

end

/-- The plaintext under `counter` is a fragment of one of the commands `given`, and its number of
fragments fits a byte. -/
def IsFragment (flags : UInt8) (given : List Given) (counter : UInt32) (plaintext : Bytes) : Prop :=
  ∃ g ∈ given, ∃ size n, FragmentSize flags size ∧ n < chunkCount g.value.length size ∧
    chunkCount g.value.length size < 2 ^ 8 ∧ counter = g.base + UInt32.ofNat n ∧
    plaintext = (Bridge.commandFragment g.index g.value size (chunkCount g.value.length size) n).bytes

/-- A fragment of a given command is one when more commands are given. -/
theorem IsFragment.mono {flags : UInt8} {given given' : List Given} {counter : UInt32}
    {plaintext : Bytes} (h : IsFragment flags given counter plaintext) (hsub : given ⊆ given') :
    IsFragment flags given' counter plaintext := by
  obtain ⟨g, hg, hrest⟩ := h
  exact ⟨g, hsub hg, hrest⟩

/-- What the leaf reads in such a fragment. -/
theorem IsFragment.view {flags : UInt8} {given : List Given} {counter : UInt32} {plaintext : Bytes}
    {view : EntityPayload} (h : IsFragment flags given counter plaintext)
    (hparse : EntityPayload.parse plaintext = some view) :
    ∃ g ∈ given, g.index = view.entityIndex ∧ g.base = fragmentMessageTxBase counter view ∧
      ∃ size, FragmentSize flags size ∧ IsPart view g.value size := by
  obtain ⟨g, hg, size, n, hsize, hn, hcount, rfl, rfl⟩ := h
  have hindex : (UInt8.ofNat n).toNat = n := UInt8.toNat_ofNat_of_lt' (Nat.lt_trans hn hcount)
  have hlt : UInt8.ofNat n < UInt8.ofNat (chunkCount g.value.length size) := by
    rw [UInt8.lt_iff_toNat_lt, hindex, UInt8.toNat_ofNat_of_lt' hcount]
    exact hn
  cases (EntityPayload.parse_bytes hlt).symm.trans hparse
  refine ⟨g, hg, rfl, ?_, size, hsize, isPart_of_lt _ _ hn hcount⟩
  change g.base = g.base + UInt32.ofNat n - UInt32.ofNat (UInt8.ofNat n).toNat
  rw [hindex, UInt32.add_sub_cancel]

/-! ## The bridge -/

namespace Bridge

variable {c : Crypto} {e : Env} {k : Call} {b₀ b b' : Bridge} {flags : UInt8} {given : List Given}

/-- The command that `send_command_to_leaf` takes in a call. -/
def given? (b : Bridge) : Call → Option Given
  | .command _ index value =>
    (b.session?.filter fun x => x.online && x.sessionKeyValid).map fun x =>
      ⟨x.txCounter, index, value⟩
  | _ => none

/-- The number of fragments of each command that a call may send fits a byte. -/
def Narrow (b : Bridge) : Call → Prop
  | .command _ _ value => ∀ x, b.session? = some x →
      chunkCount value.length x.limits.maxEntityFragment < 2 ^ 8
  | .loop _ => ∀ x, b.session? = some x → ∀ p ∈ b.hub.commandQueue,
      chunkCount p.value.length x.limits.maxEntityFragment < 2 ^ 8
  | _ => True

/-- In the course of a call `k` from `b₀`: all that was sent are fragments of the commands `given`,
and so is all that the queue may send. -/
structure Issuing (k : Call) (b₀ : Bridge) (flags : UInt8) (given : List Given) (b : Bridge) : Prop where
  config : b.hub.config.sessionFlags = flags
  size : ∀ x, b.session? = some x → FragmentSize flags x.limits.maxEntityFragment
  counter : ∀ x, b.session? = some x → x.txCounter = UInt32.ofNat (x.drawn + 1)
  limits : k.isFrame = false → ∀ x, b.session? = some x →
    ∃ x₀, b₀.session? = some x₀ ∧ x.limits = x₀.limits
  content : (∃ e, k = .loop e) → ∀ p ∈ b.hub.commandQueue, ∃ q ∈ b₀.hub.commandQueue, p.content = q.content
  queue : ∀ p ∈ b.hub.commandQueue, ⟨p.txBase, p.fieldIndex, p.value⟩ ∈ given
  sent : ∀ key n p, .encrypt .command key n p ∈ b.hub.effects → IsFragment flags given n p

/-- What it depends on. -/
theorem Issuing.congr (h : Issuing k b₀ flags given b) (hconfig : b'.hub.config = b.hub.config)
    (hsession : ∀ x', b'.session? = some x' → ∃ x, b.session? = some x ∧ x'.limits = x.limits ∧
      (x.txCounter = UInt32.ofNat (x.drawn + 1) → x'.txCounter = UInt32.ofNat (x'.drawn + 1)))
    (hqueue : ∀ p ∈ b'.hub.commandQueue, ∃ q ∈ b.hub.commandQueue, p.content = q.content)
    (hsent : ∀ key n p, .encrypt .command key n p ∈ b'.hub.effects →
      .encrypt .command key n p ∈ b.hub.effects ∨ IsFragment flags given n p) :
    Issuing k b₀ flags given b' where
  config := by
    rw [hconfig]
    exact h.config
  size x' hx' := by
    obtain ⟨x, hx, hlimits, -⟩ := hsession x' hx'
    rw [hlimits]
    exact h.size x hx
  counter x' hx' := by
    obtain ⟨x, hx, -, hcounter⟩ := hsession x' hx'
    exact hcounter (h.counter x hx)
  limits hk x' hx' := by
    obtain ⟨x, hx, hlimits, -⟩ := hsession x' hx'
    rw [hlimits]
    exact h.limits hk x hx
  content hk p hp := by
    obtain ⟨q, hq, hpq⟩ := hqueue p hp
    obtain ⟨r, hr, hqr⟩ := h.content hk q hq
    exact ⟨r, hr, hpq.trans hqr⟩
  queue p hp := by
    obtain ⟨q, hq, hpq⟩ := hqueue p hp
    have hmem := h.queue q hq
    simp only [PendingCommand.content, Prod.mk.injEq] at hpq
    rwa [hpq.1, hpq.2.1, hpq.2.2]
  sent key n p hin := (hsent key n p hin).elim (h.sent key n p) id

section

variable {m : Mac} {h h' : Hub} {x x' : Session}

/-- A change of the session that keeps its limits and its counter. -/
theorem Issuing.session (hi : Issuing k b₀ flags given ⟨m, h, some x⟩) (hlimits : x'.limits = x.limits)
    (hcounter : x.txCounter = UInt32.ofNat (x.drawn + 1) → x'.txCounter = UInt32.ofNat (x'.drawn + 1)) :
    Issuing k b₀ flags given ⟨m, h, some x'⟩ := by
  refine hi.congr rfl (fun y hy => ⟨x, rfl, ?_⟩) (fun p hp => ⟨p, hp, rfl⟩) (fun _ _ _ => .inl)
  cases hy
  exact ⟨hlimits, hcounter⟩

/-- An effect that is not a fragment of a command. -/
theorem Issuing.note {x? : Option Session} {eff : Effect} (hi : Issuing k b₀ flags given ⟨m, h, x?⟩)
    (heff : ∀ key n p, eff ≠ .encrypt .command key n p) :
    Issuing k b₀ flags given ⟨m, h.note eff, x?⟩ := by
  refine hi.congr rfl (fun x hx => ⟨x, hx, rfl, id⟩) (fun p hp => ⟨p, hp, rfl⟩) fun key n p hin => ?_
  rcases List.mem_cons.mp hin with heq | hin
  · exact absurd heq.symm (heff key n p)
  · exact .inl hin

/-- A fragment. -/
theorem Issuing.fragment {key : SessionKey} {n : UInt32} {p : Bytes} {x? : Option Session}
    (hi : Issuing k b₀ flags given ⟨m, h, x?⟩) (hfragment : IsFragment flags given n p) :
    Issuing k b₀ flags given ⟨m, h.note (.encrypt .command key n p), x?⟩ := by
  refine hi.congr rfl (fun x hx => ⟨x, hx, rfl, id⟩) (fun p hp => ⟨p, hp, rfl⟩) fun key' n' p' hin => ?_
  rcases List.mem_cons.mp hin with heq | hin
  · obtain ⟨-, -, rfl, rfl⟩ := Effect.encrypt.inj heq
    exact .inr hfragment
  · exact .inl hin

theorem Issuing.bump (hi : Issuing k b₀ flags given ⟨m, h, some x⟩) :
    Issuing k b₀ flags given ⟨m, h, some x.bumpTxCounter⟩ := by
  refine hi.session rfl fun hcounter => ?_
  change x.txCounter + 1 = UInt32.ofNat (x.drawn + 1 + 1)
  rw [hcounter]
  exact (UInt32.ofNat_add _ 1).symm

end

/-- The fragment sizes that the flags of the two ends lead to. -/
theorem fragmentSize_negotiated (leafFlags : UInt8) (flags : UInt8) :
    FragmentSize flags (negotiated leafFlags flags).2.maxEntityFragment := by
  unfold negotiated
  split
  next hv2 => exact .inr ⟨rfl, hv2.2⟩
  · exact .inl rfl

/-- Every move of the bridge encrypts fragments of given commands only, each at its own counter. -/
theorem Issuing.move (hi : Issuing k b₀ flags given b) (hnarrow : b₀.Narrow k)
    (hgiven : ∀ e index value x₀, k = .command e index value → b₀.session? = some x₀ →
      ⟨x₀.txCounter, index, value⟩ ∈ given)
    (hmove : Move c k b₀ b b') : Issuing k b₀ flags given b' := by
  cases hmove with
  | send hsend =>
    cases hsend with
    | hub heff hcommands hconfigs hconfig =>
      refine hi.congr hconfig (fun x hx => ⟨x, hx, rfl, id⟩) (fun p hp => ⟨p, ?_, rfl⟩)
        (fun _ _ _ hin => .inl (heff ▸ hin))
      rw [hcommands] at hp
      exact hp
    | note eff heff =>
      refine hi.note ?_
      rintro key n p rfl
      cases heff
    | @session m h x x' hcore =>
      have htx : x'.txCounter = x.txCounter := congrArg Core.txCounter hcore
      have hdrawn : x'.drawn = x.drawn := congrArg Core.drawn hcore
      refine hi.session (congrArg Core.limits hcore) fun hcounter => ?_
      rw [htx, hdrawn]
      exact hcounter
    | bump => exact hi.bump
    | encrypt type plaintext _ _ hcommand =>
      refine (hi.note fun key n p heq => ?_).bump
      obtain ⟨rfl, -⟩ := Effect.encrypt.inj heq
      exact hcommand rfl
  | create hk =>
    refine ⟨hi.config, fun y hy => ?_, fun y hy => ?_, fun hk' => ?_, hi.content, hi.queue, hi.sent⟩
    · cases hy
      exact .inl rfl
    · cases hy
      rfl
    · exact absurd (hk'.symm.trans hk) Bool.false_ne_true
  | drop =>
    exact hi.congr rfl (fun _ hx => by cases hx) (fun p hp => ⟨p, hp, rfl⟩) (fun _ _ _ => .inl)
  | restart =>
    exact hi.congr rfl (fun _ hx => by cases hx) (fun _ hp => by cases hp) (fun _ _ _ => .inl)
  | @rekey m h x x' e senderMac data rssi f hjoins hhub hcore =>
    refine ⟨hi.config, fun y hy => ?_, fun y hy => ?_, fun hk => ?_, hi.content, hi.queue, hi.sent⟩
    · cases hy
      have hlimits : x'.limits = (negotiated (Join.parse f.payload).sessionFlags
          h.config.sessionFlags).2 := congrArg Core.limits hcore
      rw [hlimits, ← hi.config]
      exact fragmentSize_negotiated _ _
    · cases hy
      have htx : x'.txCounter = x.txCounter := congrArg Core.txCounter hcore
      have hdrawn : x'.drawn = x.drawn := congrArg Core.drawn hcore
      rw [htx, hdrawn]
      exact hi.counter x rfl
    · rw [hjoins.call] at hk
      cases hk
  | invalidate | restored | abandon | rejoin | seen | seenMax | online | confirmed =>
    exact hi.session rfl id
  | publish | hops => exact hi.note fun _ _ _ heq => by cases heq
  | stateAck => exact (hi.note (fun _ _ _ heq => by cases heq)).bump
  | up | down | giveUp => exact (hi.note (fun _ _ _ heq => by cases heq)).session rfl id
  | @commandFragment m h x x₀ e index value n hk hx₀ hn htx hvalid =>
    refine Issuing.bump (hi.fragment ⟨⟨x₀.txCounter, index, value⟩, ?_, x.limits.maxEntityFragment, n,
      hi.size x rfl, hn, ?_, htx, rfl⟩)
    · exact hgiven e index value x₀ hk hx₀
    · obtain ⟨y, hy, hlimits⟩ := hi.limits (by rw [hk]; rfl) x rfl
      subst hk
      rw [hlimits]
      exact hnarrow y hy
  | @queueCommand m h x x₀ p hvalid hsent hk hx₀ hbase =>
    obtain ⟨e, hk⟩ := hk
    refine ⟨hi.config, hi.size, hi.counter, hi.limits, fun hloop => ?_, fun q hq => ?_, hi.sent⟩
    · obtain ⟨e', hloop⟩ := hloop
      cases hk.symm.trans hloop
    · rcases List.mem_append.mp hq with hq | hq
      · exact hi.queue q hq
      · rw [List.mem_singleton.mp hq, hbase]
        exact hgiven e p.fieldIndex p.value x₀ hk hx₀
  | queueConfig => exact hi.congr rfl (fun x hx => ⟨x, hx, rfl, id⟩) (fun p hp => ⟨p, hp, rfl⟩) (fun _ _ _ => .inl)
  | @retryCommand m h x p hp hvalid n hn hk =>
    refine hi.fragment ⟨_, hi.queue p hp, x.limits.maxEntityFragment, n, hi.size x rfl, hn, ?_, rfl, rfl⟩
    obtain ⟨q, hq, hcontent⟩ := hi.content hk p hp
    obtain ⟨e, hk⟩ := hk
    obtain ⟨y, hy, hlimits⟩ := hi.limits (by rw [hk]; rfl) x rfl
    have hvalue : p.value = q.value := congrArg (fun z => z.2.1) hcontent
    subst hk
    rw [hlimits, hvalue]
    exact hnarrow y hy q hq
  | retryConfig => exact hi.note fun _ _ _ heq => by cases heq
  | queues commands configs hcommands =>
    exact hi.congr rfl (fun x hx => ⟨x, hx, rfl, id⟩) hcommands (fun _ _ _ => .inl)

/-- Between two calls: the commands are numbered in the order in which they were given. -/
structure Issued (flags : UInt8) (given : List Given) (b : Bridge) : Prop where
  config : b.hub.config.sessionFlags = flags
  size : ∀ x, b.session? = some x → FragmentSize flags x.limits.maxEntityFragment
  counter : ∀ x, b.session? = some x → x.txCounter = UInt32.ofNat (x.drawn + 1)
  queue : ∀ p ∈ b.hub.commandQueue, ⟨p.txBase, p.fieldIndex, p.value⟩ ∈ given
  sent : ∀ key n p, .encrypt .command key n p ∈ b.hub.effects → IsFragment flags given n p
  below : ∀ x, b.session? = some x → ∀ g ∈ given, g.base.toNat ≤ x.drawn
  unissued : b.session? = none → given = []
  small : ∀ g ∈ given, g.base.toNat < 2 ^ 31
  ordered : given.Pairwise fun newer older => older.base < newer.base

/-- A call begins with what was issued before it. -/
theorem Issued.issuing {given' : List Given} (h : Issued flags given b) (hsub : given ⊆ given') :
    Issuing k b flags given' b where
  config := h.config
  size := h.size
  counter := h.counter
  limits _ x hx := ⟨x, hx, rfl⟩
  content _ p hp := ⟨p, hp, rfl⟩
  queue p hp := hsub (h.queue p hp)
  sent key n p hin := (h.sent key n p hin).mono hsub

/-- A command is refused unless the session is up. -/
theorem command_refused {index : UInt8} {value : Bytes} (h : b.given? (.command e index value) = none) :
    b.call c (.command e index value) = b := by
  obtain ⟨m, h', x?⟩ := b
  cases x? with
  | none => rfl
  | some x =>
    have hdown : ¬ (x.online && x.sessionKeyValid) := by
      intro hup
      unfold given? at h
      rw [Option.filter_some, if_pos hup] at h
      cases h
    unfold call command
    dsimp only
    unfold sendCommandToLeaf
    rw [if_pos (by simpa [Decidable.or_iff_not_imp_left] using hdown)]
    rfl

/-- The first fragment of a command takes a counter. -/
theorem sendCommandLoop_drawn {h : Hub} {x : Session} (mac : Mac) (index : UInt8) (value : Bytes)
    (txBase : UInt32) (fragSize count left chunk : Nat) :
    x.drawn + min left 1 ≤
      (sendCommandLoop c e mac index value txBase true fragSize count left chunk h x).2.1.drawn := by
  induction left generalizing chunk h x with
  | zero => exact Nat.le_refl _
  | succ left ih =>
    simp only [sendCommandLoop, if_true]
    split
    · refine Nat.le_trans ?_ (ih (x := x.takeTxCounter (txBase + UInt32.ofNat chunk)) _)
      change x.drawn + min (left + 1) 1 ≤ x.drawn + 1 + min left 1
      omega
    · change x.drawn + min (left + 1) 1 ≤ x.drawn + 1
      omega

/-- A command that the bridge takes gets the next counter of the session for its base. -/
theorem command_given {index : UInt8} {value : Bytes} {g : Given}
    (h : b.given? (.command e index value) = some g) :
    ∃ x, b.session? = some x ∧ g = ⟨x.txCounter, index, value⟩ ∧
      ∃ x', (b.call c (.command e index value)).session? = some x' ∧ x.drawn < x'.drawn := by
  obtain ⟨x, hx, rfl⟩ := Option.map_eq_some_iff.mp h
  obtain ⟨hx, hup⟩ := Option.filter_eq_some_iff.mp hx
  simp only [Bool.and_eq_true] at hup
  refine ⟨x, hx, rfl, ?_⟩
  unfold call command
  dsimp only
  rw [hx]
  dsimp only
  unfold sendCommandToLeaf
  rw [if_neg (by simp [hup.1, hup.2])]
  have hdrawn := sendCommandLoop_drawn (c := c) (e := e) (h := b.hub) (x := x) x.link.nextHopMac index
    value x.txCounter x.limits.maxEntityFragment (chunkCount value.length x.limits.maxEntityFragment)
    (chunkCount value.length x.limits.maxEntityFragment) 0
  have hpos := chunkCount_pos value.length x.limits.maxEntityFragment
  refine ⟨_, rfl, ?_⟩
  unfold sendCommand sendCommandFragments
  dsimp only
  generalize sendCommandLoop c e x.link.nextHopMac index value x.txCounter true
    x.limits.maxEntityFragment (chunkCount value.length x.limits.maxEntityFragment)
    (chunkCount value.length x.limits.maxEntityFragment) 0 b.hub x = o at hdrawn ⊢
  obtain ⟨h', x', sent⟩ := o
  dsimp only at hdrawn
  cases sent
  all_goals
    change x.drawn < x'.drawn
    omega

/-- The number of a new command is above those of the others. -/
theorem Issued.above {g : Given} (hi : Issued flags given b)
    (hcounters : ∀ x, (b.call c k).session? = some x → x.drawn < 2 ^ 31) (hg : b.given? k = some g) :
    (∀ g' ∈ given, g'.base.toNat < g.base.toNat) ∧
      ∀ x', (b.call c k).session? = some x' → g.base.toNat ≤ x'.drawn := by
  cases k with
  | command e index value =>
    obtain ⟨x, hx, rfl, x', hx', hlt⟩ := command_given (c := c) hg
    have hsmall := hcounters x' hx'
    have hbase : x.txCounter.toNat = x.drawn + 1 := by
      rw [hi.counter x hx]
      exact UInt32.toNat_ofNat_of_lt' (show x.drawn + 1 < 2 ^ 32 by omega)
    refine ⟨fun g' hg' => ?_, fun y hy => ?_⟩
    · change g'.base.toNat < x.txCounter.toNat
      rw [hbase]
      exact Nat.lt_succ_of_le (hi.below x hx g' hg')
    · cases hx'.symm.trans hy
      change x.txCounter.toNat ≤ x'.drawn
      omega
  | _ => cases hg

/-- A call sends fragments of the commands that were given, the new one among them. -/
theorem Issued.issuing_call (hi : Issued flags given b) (hnarrow : b.Narrow k) :
    Issuing k b flags ((b.given? k).toList ++ given) (b.call c k) := by
  have hsub : given ⊆ (b.given? k).toList ++ given := List.subset_append_right _ _
  have hmoves (hgiven : ∀ e index value x₀, k = .command e index value → b.session? = some x₀ →
      ⟨x₀.txCounter, index, value⟩ ∈ (b.given? k).toList ++ given) :=
    call_invariant (c := c) (I := Issuing k b flags ((b.given? k).toList ++ given))
      (fun _ _ ht hmove => ht.move hnarrow hgiven hmove) (hi.issuing hsub)
  cases k with
  | command e index value =>
    cases hg : b.given? (.command e index value) with
    | none =>
      rw [command_refused hg]
      exact hi.issuing (List.subset_append_right _ _)
    | some g =>
      rw [hg] at hmoves
      refine hmoves fun e' index' value' x₀ hk hx₀ => ?_
      cases hk
      obtain ⟨x, hx, rfl, -⟩ := command_given (c := c) hg
      cases hx.symm.trans hx₀
      exact List.mem_cons_self
  | _ => exact hmoves fun _ _ _ _ hk => by cases hk

/-- Without a session nothing was given. -/
theorem Issued.given_eq_nil (hi : Issued flags given b) (hb : b.session? = none) :
    (b.given? k).toList ++ given = [] := by
  have hnone : b.given? k = none := by
    cases k with
    | command e index value =>
      unfold given?
      rw [hb]
      rfl
    | _ => rfl
  rw [hnone, hi.unissued hb]
  rfl

/-- No number is above the draws of the session. -/
theorem Issued.below_call {x' : Session} (hi : Issued flags given b)
    (hcounters : ∀ x, (b.call c k).session? = some x → x.drawn < 2 ^ 31)
    (hx' : (b.call c k).session? = some x') :
    ∀ g ∈ (b.given? k).toList ++ given, g.base.toNat ≤ x'.drawn := by
  intro g hg
  cases hx : b.session? with
  | none =>
    rw [hi.given_eq_nil hx] at hg
    cases hg
  | some x =>
    rcases List.mem_append.mp hg with hg | hg
    · exact (hi.above hcounters (Option.mem_toList.mp hg)).2 x' hx'
    · have hle := (call_moves c b k).drawn_le hx
      rw [lastDrawn, hx'] at hle
      exact (hi.below x hx g hg).trans hle

/-- A call adds the command that it gives. -/
theorem Issued.call (hi : Issued flags given b) (hnarrow : b.Narrow k)
    (hkept : b.session?.isSome → (b.call c k).session?.isSome)
    (hcounters : ∀ x, (b.call c k).session? = some x → x.drawn < 2 ^ 31) :
    Issued flags ((b.given? k).toList ++ given) (b.call c k) := by
  have hissuing := hi.issuing_call (c := c) hnarrow
  have hnone (hlost : (b.call c k).session? = none) : (b.given? k).toList ++ given = [] := by
    refine hi.given_eq_nil ?_
    rw [← Option.not_isSome_iff_eq_none]
    intro hsome
    rw [hlost] at hkept
    exact Bool.false_ne_true (hkept hsome)
  refine ⟨hissuing.config, hissuing.size, hissuing.counter, hissuing.queue, hissuing.sent,
    fun _ => hi.below_call hcounters, hnone, fun g hg => ?_, ?_⟩
  · cases hx' : (b.call c k).session? with
    | none =>
      rw [hnone hx'] at hg
      cases hg
    | some x' => exact Nat.lt_of_le_of_lt (hi.below_call hcounters hx' g hg) (hcounters x' hx')
  · refine List.pairwise_append.mpr ⟨?_, hi.ordered, fun g hg g' hg' => ?_⟩
    · cases b.given? k with
      | none => exact .nil
      | some g => exact List.pairwise_singleton _ _
    · exact UInt32.lt_iff_toNat_lt.mpr ((hi.above hcounters (Option.mem_toList.mp hg)).1 g' hg')

/-- A frame that nothing stops is encrypted. -/
theorem encrypts_of_ready {h : Hub} {x : Session} {type : PacketType} {tx : UInt32} {plaintext : Bytes}
    (mac : Mac) (hvalid : x.sessionKeyValid) (hsize : plaintext.length ≤ maxPlaintext x.sessionMaxPayload)
    (hheap : ∀ n, e.heapOk n) (hcrypt : (c.crypt x.sessionKey tx plaintext).isSome) :
    .encrypt type x.sessionKey tx plaintext ∈
      (sendEncryptedWithTxCounterResult c e h mac x type downHop tx plaintext).1.effects := by
  obtain ⟨ciphertext, hcipher⟩ := Option.isSome_iff_exists.mp hcrypt
  unfold sendEncryptedWithTxCounterResult sealAndSend
  rw [if_neg (not_not.mpr hvalid), if_neg (Nat.not_lt.mpr hsize), if_neg (not_not.mpr (hheap _)),
    hcipher]
  exact List.mem_cons_of_mem _ List.mem_cons_self

/-- The first fragment of a command goes out, whatever becomes of the others. -/
theorem sendCommandLoop_first {h : Hub} {x : Session} (mac : Mac) (index : UInt8) (value : Bytes)
    (txBase : UInt32) (fragSize count left : Nat) (hvalid : x.sessionKeyValid)
    (hsize : (commandFragment index value fragSize count 0).bytes.length ≤
      maxPlaintext x.sessionMaxPayload)
    (hheap : ∀ n, e.heapOk n) (hcrypt : ∀ n p, (c.crypt x.sessionKey n p).isSome) :
    .encrypt .command x.sessionKey txBase (commandFragment index value fragSize count 0).bytes ∈
      (sendCommandLoop c e mac index value txBase true fragSize count (left + 1) 0 h x).1.effects := by
  have htx : txBase + UInt32.ofNat 0 = txBase := UInt32.add_zero txBase
  simp only [sendCommandLoop, if_true, htx]
  have hin : .encrypt .command x.sessionKey txBase (commandFragment index value fragSize count 0).bytes ∈
      (sendEncryptedWithTxCounterResult c e h mac (x.takeTxCounter txBase) .command downHop txBase
        (commandFragment index value fragSize count 0).bytes).1.effects :=
    encrypts_of_ready (x := x.takeTxCounter txBase) mac hvalid hsize hheap (hcrypt _ _)
  split
  · exact (sendCommandLoop_kept _ _ _ _ _ _ _ _ _ rfl).1.mem hin
  · exact hin

/-- Each fragment takes one counter. -/
theorem sendCommandLoop_drawn_le {h : Hub} {x : Session} (mac : Mac) (index : UInt8) (value : Bytes)
    (txBase : UInt32) (fragSize count left chunk : Nat) :
    (sendCommandLoop c e mac index value txBase true fragSize count left chunk h x).2.1.drawn ≤
      x.drawn + left := by
  induction left generalizing chunk h x with
  | zero => exact Nat.le_refl _
  | succ left ih =>
    simp only [sendCommandLoop, if_true]
    split
    · refine Nat.le_trans (ih (x := x.takeTxCounter (txBase + UInt32.ofNat chunk)) _) ?_
      change x.drawn + 1 + left ≤ x.drawn + (left + 1)
      omega
    · change x.drawn + 1 ≤ x.drawn + (left + 1)
      omega

end Bridge

/-! ## The leaf -/

/-- No two commands have the same number. -/
theorem eq_of_base_eq {given : List Given}
    (h : given.Pairwise fun newer older => older.base < newer.base) {g g' : Given} (hg : g ∈ given)
    (hg' : g' ∈ given) (hbase : g.base = g'.base) : g = g' := by
  refine List.inj_on_of_nodup_map ?_ hg hg' hbase
  exact List.pairwise_map.mpr (h.imp fun hlt heq => by simp [heq] at hlt)

/-- Below half of their range counters compare as numbers, and a newer one is a larger one. -/
theorem newer_of_small {candidate previous : UInt32} (h : counterIsNewer candidate previous)
    (hcandidate : candidate.toNat < 2 ^ 31) (hprevious : previous.toNat < 2 ^ 31) :
    previous < candidate := by
  simp only [counterIsNewer, Bool.and_eq_true, bne_iff_ne, ne_eq, decide_eq_true_eq] at h
  obtain ⟨hne, hlt⟩ := h
  have hdiff : candidate.toNat ≠ previous.toNat := by
    intro heq
    rw [UInt32.toNat_inj.mp heq, UInt32.sub_self] at hne
    exact hne rfl
  have hnat : (2 ^ 32 - previous.toNat + candidate.toNat) % 2 ^ 32 < 0x80000000 := by
    rw [← UInt32.toNat_sub]
    exact UInt32.lt_iff_toNat_lt.mp hlt
  rw [UInt32.lt_iff_toNat_lt]
  omega

/-- The number is later than those of all the commands `past` for the entity. -/
def Later (past : List Given) (index : UInt8) (base : UInt32) : Prop :=
  ∀ g ∈ past, g.index = index → g.base < base

/-- Every buffer in use holds parts of one command, that of its entity and its number, which is later than
those of the `past`. -/
structure Buffered (flags : UInt8) (given past : List Given) (x : Remote.Session) (pending : Assemblies) :
    Prop where
  limits : x.sessionKeyValid → x.limits = joinedLimits flags
  pending : ∀ p ∈ pending, p.2.active → x.limits = joinedLimits flags ∧ Later past p.1 p.2.messageTxBase ∧
    ∃ g ∈ given, g.index = p.1 ∧ g.base = p.2.messageTxBase ∧
      ∃ size, FragmentSize flags size ∧ p.2.Holds g.value size x.limits.maxEntityFragment

/-- The commands that were executed are among the commands `given`, and those of an entity came in the
order of their numbers.  Of what is not `past`, `lasts` knows the last one. -/
structure Executed (given past : List Given) (lasts : List UInt32) (effects : List Effect) : Prop where
  given : ∀ g ∈ executions effects, g ∈ given
  ordered : (executions effects).Pairwise fun newer older => newer.index = older.index → older.base < newer.base
  recent : ∀ g ∈ executions effects, g ∈ past ∨ ∃ last, lasts[g.index.toNat]? = some last ∧ g.base ≤ last
  small : ∀ last ∈ lasts, last.toNat < 2 ^ 31

section

variable {flags : UInt8} {given given' past : List Given} {effects : List Effect} {lasts : List UInt32}
  {x : Remote.Session} {pending : Assemblies}

/-- The buffers hold parts of given commands when more are given. -/
theorem Buffered.mono (h : Buffered flags given past x pending) (hsub : given ⊆ given') :
    Buffered flags given' past x pending := by
  refine ⟨h.limits, fun p hp hactive => ?_⟩
  obtain ⟨hlimits, hlater, g, hg, hrest⟩ := h.pending p hp hactive
  exact ⟨hlimits, hlater, g, hsub hg, hrest⟩

/-- The buffers do not depend on the rest of the session. -/
theorem Buffered.congr {x' : Remote.Session} (h : Buffered flags given past x pending)
    (hvalid : x'.sessionKeyValid → x.sessionKeyValid) (hlimits : x'.limits = x.limits) :
    Buffered flags given past x' pending := by
  refine ⟨fun hv => hlimits.trans (h.limits (hvalid hv)), fun p hp hactive => ?_⟩
  rw [hlimits]
  exact h.pending p hp hactive

/-- A fragment goes into the buffer of its own command. -/
theorem Buffered.store {reserved counter now : UInt32}
    {command : EntityPayload} {plaintext : Bytes} (h : Buffered flags given past x pending)
    (hordered : given.Pairwise fun newer older => older.base < newer.base)
    (hvalid : x.sessionKeyValid) (hfragment : IsFragment flags given counter plaintext)
    (hparse : EntityPayload.parse plaintext = some command)
    (hlater : Later past command.entityIndex (fragmentMessageTxBase counter command)) :
    Buffered flags given past x (offerFragment false x.limits pending reserved command
      (fragmentMessageTxBase counter command) now).pending := by
  obtain ⟨g, hg, hindex, hbase, size, hsize, hpart⟩ := hfragment.view hparse
  have hlimits := h.limits hvalid
  refine ⟨h.limits, fun p hp hactive => ?_⟩
  rcases mem_offerFragment hp with hp | ⟨hentity, a, hoffered, hp⟩
  · exact h.pending p hp hactive
  have hfound (hin : a.active) : (command.entityIndex, a) ∈ pending := by
    rcases hoffered with rfl | hget
    · cases hin
    · exact Assemblies.mem_of_get? hget
  have hold (heq : p.2 = a) : (p.1, p.2) ∈ pending := by
    rw [heq] at hactive ⊢
    rw [hentity]
    exact hfound hactive
  -- a buffer that is in use by the same command holds parts of it
  have hopen (hin : a.active) (hsame : a.messageTxBase = fragmentMessageTxBase counter command)
      (hcount : a.fragmentCount = command.fragmentCount) :
      a.Holds g.value size x.limits.maxEntityFragment := by
    obtain ⟨-, -, g', hg', -, hbase', size', hsize', hholds⟩ := h.pending _ (hfound hin) hin
    have hsameCommand : g' = g :=
      eq_of_base_eq hordered hg' hg (hbase'.trans (hsame.trans hbase.symm))
    rw [hsameCommand] at hholds
    refine hholds.resize hsize' hsize ?_
    rw [← hholds.count, ← hpart.count]
    exact congrArg UInt8.toNat hcount
  rcases hp with heq | hp
  · exact h.pending p (hold heq) hactive
  · have hstored : a.storeFragment false command _ now _ x.limits.maxAssemblyBytes = (a, false) ∨ _ :=
      FragmentAssembly.storeFragment_holds hpart (hlimits ▸ hsize.le) hsize.lt hopen
    rcases hstored with hsame | ⟨hholds, hnumber⟩
    · refine h.pending p (hold ?_) hactive
      rw [hp, hsame]
    · refine ⟨hlimits, ?_, g, hg, hindex.trans hentity.symm, ?_, size, hsize, ?_⟩
      · rw [hp, hentity, hnumber]
        exact hlater
      · rw [hp, hnumber, hbase]
      · rw [hp]
        exact hholds

/-- What was executed stays the execution of given commands when more are given. -/
theorem Executed.mono (h : Executed given past lasts effects) (hsub : given ⊆ given') :
    Executed given' past lasts effects :=
  ⟨fun g hg => hsub (h.given g hg), h.ordered, h.recent, h.small⟩

/-- An effect that is not the execution of a command. -/
theorem Executed.note (eff : Effect) (h : Executed given past lasts effects)
    (heff : eff.execution? = none) : Executed given past lasts (eff :: effects) := by
  have hsame : executions (eff :: effects) = executions effects := List.filterMap_cons_none heff
  refine ⟨?_, ?_, ?_, h.small⟩
  · rw [hsame]
    exact h.given
  · rw [hsame]
    exact h.ordered
  · rw [hsame]
    exact h.recent

/-- The execution of a command that is newer than the last one of its entity, and than those of the past. -/
theorem Executed.execute {g : Given} (eff : Effect) {last : UInt32}
    (h : Executed given past lasts effects) (heff : eff.execution? = some g) (hg : g ∈ given)
    (hsmall : g.base.toNat < 2 ^ 31) (hlast : lasts[g.index.toNat]? = some last) (hnew : last < g.base)
    (hlater : Later past g.index g.base) :
    Executed given past (lasts.set g.index.toNat g.base) (eff :: effects) := by
  have hcons : executions (eff :: effects) = g :: executions effects := List.filterMap_cons_some heff
  have hlength := (List.getElem?_eq_some_iff.mp hlast).1
  refine ⟨?_, ?_, ?_, fun last' hlast' => ?_⟩
  · rw [hcons]
    intro g' hg'
    rcases List.mem_cons.mp hg' with rfl | hg'
    · exact hg
    · exact h.given g' hg'
  · rw [hcons]
    refine List.pairwise_cons.mpr ⟨fun g' hg' hindex => ?_, h.ordered⟩
    rcases h.recent g' hg' with hpast | ⟨last', hlast', hle⟩
    · exact hlater g' hpast hindex.symm
    · rw [← hindex, hlast] at hlast'
      cases hlast'
      exact UInt32.lt_of_le_of_lt hle hnew
  · rw [hcons]
    intro g' hg'
    rcases List.mem_cons.mp hg' with rfl | hg'
    · exact .inr ⟨g'.base, List.getElem?_set_self hlength, UInt32.le_refl _⟩
    rcases h.recent g' hg' with hpast | ⟨last', hlast', hle⟩
    · exact .inl hpast
    by_cases hindex : g.index.toNat = g'.index.toNat
    · rw [← hindex, hlast] at hlast'
      cases hlast'
      refine .inr ⟨g.base, ?_, UInt32.le_of_lt (UInt32.lt_of_le_of_lt hle hnew)⟩
      rw [← hindex]
      exact List.getElem?_set_self hlength
    · refine .inr ⟨last', ?_, hle⟩
      rw [List.getElem?_set_ne hindex]
      exact hlast'
  · rcases List.mem_or_eq_of_mem_set hlast' with hlast' | rfl
    · exact h.small last' hlast'
    · exact hsmall

end

namespace Remote

variable {P : Platform η} {c : Call} {s₀ s t : Remote η} {flags : UInt8}
  {given given' past : List Given}

/-- The numbers of the commands that the entities completed last. -/
def lasts (s : Remote η) : List UInt32 :=
  s.entities.records.map EntityRecord.lastCompletedCommandMessageTxBase

/-- A record that keeps its last base keeps the list of them. -/
theorem lasts_setRecord (s : Remote η) (index : UInt8) (g : EntityRecord → EntityRecord)
    (hg : ∀ r, (g r).lastCompletedCommandMessageTxBase = r.lastCompletedCommandMessageTxBase) :
    (s.setRecord index g).lasts = s.lasts := by
  refine List.ext_getElem? fun i => ?_
  simp only [lasts, setRecord, List.getElem?_map, List.getElem?_modify]
  cases s.entities.records[i]? with
  | none => rfl
  | some r =>
    refine congrArg some ?_
    dsimp only
    split
    · exact hg r
    · rfl

/-- Executing a command makes its base the last one of its entity. -/
theorem lasts_commanded (s : Remote η) (index : UInt8) (value : Bytes) (base : UInt32) :
    (s.setRecord index (·.commanded value base)).lasts = s.lasts.set index.toNat base := by
  refine List.ext_getElem? fun i => ?_
  simp only [lasts, setRecord, List.getElem?_map, List.getElem?_modify, List.getElem?_set,
    List.length_map]
  by_cases hi : index.toNat = i
  · subst hi
    cases hr : s.entities.records[index.toNat]? with
    | none => simpa using hr
    | some r =>
      have hlt := (List.getElem?_eq_some_iff.mp hr).1
      simp [hlt, EntityRecord.commanded]
  · simp [hi]

/-- The leaf and the commands `given`. -/
structure Commanded (flags : UInt8) (given past : List Given) (s : Remote η) : Prop where
  buffered : Buffered flags given past s.session s.commands.pendingAssemblies
  executed : Executed given past s.lasts s.radio.effects

theorem Commanded.mono (h : Commanded flags given past s) (hsub : given ⊆ given') :
    Commanded flags given' past s := ⟨h.buffered.mono hsub, h.executed.mono hsub⟩

/-- A change that touches neither the buffers nor the entities. -/
theorem Commanded.congr (h : Commanded flags given past s) (hsession : t.session = s.session)
    (hcommands : t.commands = s.commands) (hlasts : t.lasts = s.lasts)
    (heffects : t.radio.effects = s.radio.effects) : Commanded flags given past t := by
  refine ⟨?_, ?_⟩
  · rw [hsession, hcommands]
    exact h.buffered
  · rw [hlasts, heffects]
    exact h.executed

/-- An effect that executes nothing changes nothing of what was executed. -/
theorem Commanded.note (eff : Effect) (h : Commanded flags given past s)
    (heff : eff.execution? = none) : Commanded flags given past (s.note eff) :=
  ⟨h.buffered, h.executed.note eff heff⟩

/-- A complete buffer holds a command `given`, and it is executed if it is newer than the last one. -/
theorem Commanded.execute {command : EntityPayload} {base : UInt32} {record : EntityRecord}
    {a : FragmentAssembly} (h : Commanded flags given past s)
    (hsmall : ∀ g ∈ given, g.base.toNat < 2 ^ 31)
    (hrecord : s.entities.records[command.entityIndex.toNat]? = some record)
    (hnew : counterIsNewer base record.lastCompletedCommandMessageTxBase)
    (hpending : (command.entityIndex, a) ∈ s.commands.pendingAssemblies) (hbase : a.messageTxBase = base)
    (hcomplete : a.complete) : Commanded flags given past (s.completeCommand command base a) := by
  obtain ⟨-, hlater, g, hg, hindex, hnumber, size, hsize, hholds⟩ :=
    h.buffered.pending _ hpending (FragmentAssembly.active_of_complete hcomplete)
  have hvalue : a.assemble s.session.limits.maxEntityFragment = g.value :=
    hholds.assemble hcomplete hsize.pos
  rw [hbase] at hnumber
  dsimp only at hindex
  have hlast : s.lasts[g.index.toNat]? = some record.lastCompletedCommandMessageTxBase := by
    rw [hindex, lasts, List.getElem?_map, hrecord]
    rfl
  have hnewer : record.lastCompletedCommandMessageTxBase < g.base := by
    rw [hnumber]
    refine newer_of_small hnew (hnumber ▸ hsmall g hg) (h.executed.small _ ?_)
    exact List.mem_of_getElem? hlast
  have hexecution : Effect.execution? (.command s.session.sessionKey base command.entityIndex
      command.flags (a.assemble s.session.limits.maxEntityFragment)) = some g := by
    rw [hvalue, ← hnumber, ← hindex]
    rfl
  have hpast : Later past g.index g.base := by
    rw [hindex, hnumber, ← hbase]
    exact hlater
  have hexecuted := h.executed.execute _ hexecution hg (hsmall g hg) hlast hnewer hpast
  rw [hindex, hnumber, ← lasts_commanded s command.entityIndex
    (a.assemble s.session.limits.maxEntityFragment)] at hexecuted
  exact ⟨⟨h.buffered.limits, fun p hp => h.buffered.pending p (List.mem_filter.mp hp).1⟩, hexecuted⟩

/-- Every move of the leaf executes a given command at most once, the bases of an entity in their
order: the last base of an entity only grows, and a buffer is executed only when it is newer. -/
theorem Commanded.move (h : Commanded flags given past s)
    (hordered : given.Pairwise fun newer older => older.base < newer.base)
    (hsmall : ∀ g ∈ given, g.base.toNat < 2 ^ 31)
    (hfragment : ∀ f plaintext, c.frame? = some f → f.type? = some .command →
      s₀.openFrame P f = some plaintext → IsFragment flags given f.header.txCounter plaintext)
    (hlater : ∀ f plaintext command, c.frame? = some f → f.type? = some .command →
      s₀.openFrame P f = some plaintext → EntityPayload.parse plaintext = some command →
      Later past command.entityIndex (fragmentMessageTxBase f.header.txCounter command))
    (hflags : ∀ f, c.frame? = some f → s₀.Accepts f → (JoinAck.parse f.payload).sessionFlags = flags)
    (hmove : Move P c s₀ s t) : Commanded flags given past t := by
  cases hmove with
  | radio r _ _ heff => exact h.congr rfl rfl rfl heff
  | send mac data sent => exact h.note (.send mac data sent) rfl
  | encrypt type plaintext =>
    exact ⟨h.buffered, h.executed.note (.encrypt type s.session.sessionKey s.radio.txCounter plaintext) rfl⟩
  | reboot => exact h.note .reboot rfl
  | configured f command =>
    exact h.note (.config s.session.sessionKey f.header.txCounter command) rfl
  | clear =>
    refine ⟨⟨nofun, fun p hp => ?_⟩, h.executed⟩
    cases hp
  | notNormal | resume | complete | draw | seen | seenMax =>
    exact ⟨h.buffered.congr id rfl, h.executed⟩
  | invalidate => exact ⟨h.buffered.congr nofun rfl, h.executed⟩
  | accept f hf haccepts hsame =>
    have hlimits : (s.session.accept P (JoinAck.parse f.payload) f.header.txCounter).limits =
        joinedLimits flags := by
      rw [← hflags f hf haccepts]
      rfl
    refine ⟨⟨fun _ => hlimits, fun p hp hactive => ?_⟩, h.executed⟩
    obtain ⟨hold, hlater, g, hg, hindex, hbase, size, hsize, hholds⟩ := h.buffered.pending p hp hactive
    refine ⟨hlimits, hlater, g, hg, hindex, hbase, size, hsize, ?_⟩
    rw [hold] at hholds
    dsimp only
    rw [hlimits]
    exact hholds
  | entities x hrecords =>
    refine h.congr rfl rfl ?_ rfl
    unfold lasts
    dsimp only
    rw [hrecords]
  | dirtyAll =>
    refine h.congr rfl rfl ?_ rfl
    unfold lasts markAllEntitiesDirty
    dsimp only
    rw [List.map_map]
    rfl
  | dirty index => exact h.congr rfl rfl (lasts_setRecord _ _ _ fun _ => rfl) rfl
  | push e index record base value =>
    exact (h.note (.stateMessage base index (record.payload value)) rfl).congr rfl rfl rfl rfl
  | resend e record base =>
    exact (h.note (.stateMessage base s.entities.pendingStateFieldIndex
      (record.payload s.entities.pendingStateValue)) rfl).congr rfl rfl rfl rfl
  | stateAcked e =>
    exact (h.note (.stateAcked s.entities.pendingStateMessageTxBase) rfl).congr rfl rfl
      (lasts_setRecord _ _ _ fun _ => rfl) rfl
  | expire e =>
    refine ⟨⟨h.buffered.limits, fun p hp => h.buffered.pending p (List.mem_filter.mp hp).1⟩, h.executed⟩
  | store e f command plaintext hf htype hopen hparse hsame =>
    have hvalid : s.session.sessionKeyValid := by
      have hcheck := (openFrame_eq_some.mp hopen).1
      rw [validateSession, Bool.and_eq_true] at hcheck
      exact hcheck.1
    have hopen₀ : s₀.openFrame P f = some plaintext := by
      rw [← hopen, openFrame_congr hsame]
    exact ⟨h.buffered.store hordered hvalid (hfragment f plaintext hf htype hopen₀) hparse
      (hlater f plaintext command hf htype hopen₀ hparse), h.executed⟩
  | command f command plaintext record a hf htype hopen hparse hkey hsame hrecord hnew hpending hbase
      hcomplete =>
    exact h.execute hsmall hrecord hnew hpending hbase hcomplete
  | change index value => exact h.congr rfl rfl (lasts_setRecord _ _ _ fun _ => rfl) rfl
  | changeText index value => exact h.congr rfl rfl (lasts_setRecord _ _ _ fun _ => rfl) rfl
  | _ => exact ⟨h.buffered, h.executed⟩

end Remote

/-! ## The link -/

/-- Among the commands `given`, whose numbers are different, those that were executed: with the value
that was given, for each entity in the order of the numbers, and each of them once. -/
structure AtMostOnce (given : List Given) (effects : List Effect) : Prop where
  numbered : given.Pairwise fun newer older => older.base < newer.base
  given : ∀ g ∈ executions effects, g ∈ given
  ordered : (executions effects).Pairwise fun newer older => newer.index = older.index → older.base < newer.base
  once : ((executions effects).map Given.base).Nodup

namespace Link

/-- The history of a run: the commands that the bridge took, and those that the leaf had executed when it
restarted last. -/
structure History where
  given : List Given := []
  past : List Given := []

def stepHistory (P : Remote.Platform η) : Link η × History → Event η → Link η × History :=
  Transition.recording (step P) fun l ev _ history =>
    match ev with
    | .leaf _ => history
    | .bridge k => { history with given := (l.bridge.given? k).toList ++ history.given }
    | .restartLeaf _ => { history with past := executions l.leaf.radio.effects }

/-- What the leaf takes for fragments of commands and for `JOIN_ACK`s comes from the bridge. -/
structure Delivers (P : Remote.Platform η) (l : Link η) (c : Remote.Call) : Prop where
  fragment : ∀ f plaintext, c.frame? = some f → f.type? = some .command →
    l.leaf.openFrame P f = some plaintext →
    .encrypt .command l.leaf.session.sessionKey f.header.txCounter plaintext ∈ l.bridge.hub.effects
  joinAck : ∀ f, c.frame? = some f → l.leaf.Accepts f →
    (JoinAck.parse f.payload).sessionFlags = l.bridge.hub.config.sessionFlags

/-- The events of one bridge lifetime: the session stays and its counter is below 2^31. -/
def OneLifetime (P : Remote.Platform η) (s : Link η × History) : Event η → Prop
  | .leaf c => s.1.Delivers P c
  | .bridge k => (s.1.bridge.session?.isSome → (s.1.bridge.call P.crypto k).session?.isSome) ∧
      ∀ x, (s.1.bridge.call P.crypto k).session? = some x → x.drawn < 2 ^ 31
  | .restartLeaf fresh => fresh.Registered

/-- The fragments that the leaf opens are of commands later than those that their entity had executed when
the leaf restarted last. -/
def Remembered (P : Remote.Platform η) (s : Link η × History) (c : Remote.Call) : Prop :=
  ∀ f plaintext command, c.frame? = some f → f.type? = some .command →
    s.1.leaf.openFrame P f = some plaintext → EntityPayload.parse plaintext = some command →
    Later s.2.past command.entityIndex (fragmentMessageTxBase f.header.txCounter command)

/-- The condition: besides, the number of fragments of every command fits a byte, and no command comes
again that was executed before a restart. -/
structure Fitting (P : Remote.Platform η) (s : Link η × History) (ev : Event η) : Prop where
  lifetime : OneLifetime P s ev
  narrow : ∀ k, ev = .bridge k → s.1.bridge.Narrow k
  remembered : ∀ c, ev = .leaf c → Remembered P s c

def InitHistory (s : Link η × History) : Prop := s.1.Init ∧ s.2 = {}

abbrev FittingReachable (P : Remote.Platform η) : Link η × History → Prop :=
  Transition.Reachable InitHistory (Fitting P) (stepHistory P)

/-- Both ends and the commands given. -/
structure Commanding (s : Link η × History) : Prop where
  bridge : s.1.bridge.Issued s.1.bridge.hub.config.sessionFlags s.2.given
  leaf : s.1.leaf.Commanded s.1.bridge.hub.config.sessionFlags s.2.given s.2.past

variable {P : Remote.Platform η} {s : Link η × History}

/-- A leaf that has just started. -/
theorem Commanding.fresh {fresh : Remote η} (hfresh : fresh.Registered) :
    fresh.session.sessionKeyValid = false ∧ fresh.commands = {} ∧ ∀ last ∈ fresh.lasts, last = 0 := by
  obtain ⟨hsession, -, hcommands, -⟩ := hfresh.session
  refine ⟨by rw [hsession], hcommands, ?_⟩
  clear hsession hcommands
  induction hfresh with
  | fresh => nofun
  | register _ _ type name unit options id ih =>
    intro last hlast
    unfold Remote.lasts Remote.registerEntity at hlast
    rw [List.map_append] at hlast
    rcases List.mem_append.mp hlast with hlast | hlast
    · exact ih last hlast
    · exact List.mem_singleton.mp hlast

/-- Such a leaf has nothing in its buffers, and all that was executed is past. -/
theorem Commanding.start {fresh : Remote η} (hfresh : fresh.Registered) (flags : UInt8)
    {given : List Given} {effects : List Effect} (hgiven : ∀ g ∈ executions effects, g ∈ given)
    (hordered : (executions effects).Pairwise fun newer older =>
      newer.index = older.index → older.base < newer.base) :
    Buffered flags given (executions effects) fresh.session fresh.commands.pendingAssemblies ∧
      Executed given (executions effects) fresh.lasts effects := by
  obtain ⟨hvalid, hcommands, hlasts⟩ := Commanding.fresh hfresh
  refine ⟨⟨fun hv => ?_, fun p hp => ?_⟩, hgiven, hordered, fun g hg => .inl hg, fun last hlast => ?_⟩
  · exact absurd (hvalid.symm.trans hv) Bool.false_ne_true
  · rw [hcommands] at hp
    cases hp
  · rw [hlasts last hlast]
    decide

/-- One event keeps both ends in the invariant. -/
theorem Commanding.step (h : Commanding s) {ev : Event η} (hok : Fitting P s ev) :
    Commanding (stepHistory P s ev) := by
  obtain ⟨hb, hl⟩ := h
  obtain ⟨hok, hnarrow, hremembered⟩ := hok
  cases ev with
  | leaf c =>
    refine ⟨hb, ?_⟩
    refine Remote.call_invariant
      (I := fun t => t.Commanded s.1.bridge.hub.config.sessionFlags s.2.given s.2.past)
      (fun _ _ ht hmove => ht.move hb.ordered hb.small ?_ (hremembered c rfl) hok.joinAck hmove) hl
    intro f plaintext hf htype hopen
    exact hb.sent _ _ _ (hok.fragment f plaintext hf htype hopen)
  | bridge k =>
    obtain ⟨hkept, hcounters⟩ := hok
    have hcall := hb.call (hnarrow k rfl) hkept hcounters
    refine ⟨?_, ?_⟩
    · change (s.1.bridge.call P.crypto k).Issued
        (s.1.bridge.call P.crypto k).hub.config.sessionFlags _
      rw [hcall.config]
      exact hcall
    · change s.1.leaf.Commanded (s.1.bridge.call P.crypto k).hub.config.sessionFlags _ s.2.past
      rw [hcall.config]
      exact hl.mono (List.subset_append_right _ _)
  | restartLeaf fresh =>
    obtain ⟨hbuffered, hexecuted⟩ := Commanding.start hok s.1.bridge.hub.config.sessionFlags
      hl.executed.given hl.executed.ordered
    exact ⟨hb, hbuffered, hexecuted⟩

theorem Commanding.init {s : Link η × History} (h : InitHistory s) : Commanding s := by
  obtain ⟨l, past⟩ := s
  obtain ⟨hinit, rfl⟩ := h
  obtain ⟨hleaf, hsession, hqueue, -, heffects⟩ := hinit
  dsimp only at hleaf hsession hqueue heffects
  have hnone (x : Bridge.Session) : ¬ l.bridge.session? = some x := by
    rw [hsession]
    nofun
  refine ⟨⟨rfl, fun x hx => absurd hx (hnone x), fun x hx => absurd hx (hnone x), fun p hp => ?_,
    fun key n p hin => ?_, fun x hx => absurd hx (hnone x), fun _ => rfl, nofun, .nil⟩, ?_⟩
  · rw [hqueue] at hp
    cases hp
  · rw [heffects] at hin
    cases hin
  · have hnothing : l.leaf.radio.effects = [] := by rw [hleaf.session.2.2.2]
    have hstart := Commanding.start hleaf l.bridge.hub.config.sessionFlags
      (show ∀ g ∈ executions [], g ∈ [] from nofun) .nil
    refine ⟨hstart.1, ?_⟩
    dsimp only
    rw [hnothing]
    exact hstart.2

/-- In every run within one bridge lifetime whose commands fit, and in which no command comes again that was
executed before a restart of the leaf: the leaf executes each command at most once, those of an entity in
the order of their numbers, and with the value that was given. -/
theorem commands_atMostOnce (P : Remote.Platform η) (s : Link η × History) (h : FittingReachable P s) :
    AtMostOnce s.2.given s.1.leaf.radio.effects := by
  have hinv : Commanding s := Transition.Reachable.invariant (I := Commanding)
    (fun _ => Commanding.init) (fun _ _ hs hok => hs.step hok) h
  obtain ⟨hgiven, hordered, -, -⟩ := hinv.leaf.executed
  refine ⟨hinv.bridge.ordered, hgiven, hordered, ?_⟩
  -- two commands with one number are one command, and that would be older than itself
  refine List.pairwise_map.mpr (hordered.imp_of_mem fun hg hg' hlt heq => ?_)
  have hsame := eq_of_base_eq hinv.bridge.ordered (hgiven _ hg) (hgiven _ hg') heq
  rw [hsame] at hlt
  exact UInt32.lt_irrefl _ (hlt rfl)

/-! ## A short command and a long one -/

/-- The condition for a leaf, as it is evaluated on a concrete call. -/
def deliversOk (l : Link Unit) (c : Remote.Call) : Bool :=
  c.frame?.all fun f =>
    (f.type? != some .command || (l.leaf.openFrame .sample f).all fun plaintext =>
      decide (.encrypt .command l.leaf.session.sessionKey f.header.txCounter plaintext ∈
        l.bridge.hub.effects)) &&
    (f.type? != some .joinAck ||
      (JoinAck.parse f.payload).sessionFlags == l.bridge.hub.config.sessionFlags)

theorem delivers_of {l : Link Unit} {c : Remote.Call} (h : deliversOk l c) : l.Delivers .sample c := by
  unfold deliversOk at h
  refine ⟨fun f plaintext hf htype hopen => ?_, fun f hf haccepts => ?_⟩
  · rw [hf, Option.all_some, htype, hopen] at h
    simp only [Option.all_some, bne_self_eq_false, Bool.false_or, Bool.and_eq_true, decide_eq_true_eq]
      at h
    exact h.1
  · rw [hf, Option.all_some, haccepts.type] at h
    simp only [bne_self_eq_false, Bool.false_or, Bool.and_eq_true, beq_iff_eq] at h
    exact h.2

/-- The same for the bridge. -/
def stays (b : Bridge) (k : Bridge.Call) : Bool :=
  (b.call .sample k).session?.any fun x => decide (x.drawn < 2 ^ 31)

theorem oneLifetime_of {s : Link Unit × History} {k : Bridge.Call} (h : stays s.1.bridge k) :
    OneLifetime .sample s (.bridge k) := by
  obtain ⟨x, hx, hdrawn⟩ := (Option.any_eq_true _ _).mp h
  have hx : (s.1.bridge.call Remote.Platform.sample.crypto k).session? = some x := hx
  refine ⟨fun _ => by rw [hx]; rfl, fun y hy => ?_⟩
  cases hx.symm.trans hy
  exact of_decide_eq_true hdrawn

/-- A call of a leaf that has not restarted. -/
theorem fitting_leaf {s : Link Unit × History} {c : Remote.Call} (hpast : s.2.past = [])
    (h : deliversOk s.1 c) : Fitting .sample s (.leaf c) where
  lifetime := delivers_of h
  narrow := nofun
  remembered := by
    rintro c' ⟨⟩ f plaintext command - - - - g hg
    rw [hpast] at hg
    cases hg

theorem fitting_bridge {s : Link Unit × History} {k : Bridge.Call} (h : stays s.1.bridge k)
    (hnarrow : s.1.bridge.Narrow k) : Fitting .sample s (.bridge k) where
  lifetime := oneLifetime_of h
  narrow := by
    rintro k' ⟨⟩
    exact hnarrow
  remembered := nofun

/-- Leaf and bridge are up, under `Bridge.sampleKey`. -/
def upEvents : List (Event Unit) :=
  joinEvents (sampleNonce 1) 0 ++ (Bridge.joinCalls.map .bridge ++
    [toLeaf 1210 (sampleNonce 1) (Remote.joinAckTo sampleLeafMac joinStatusComplete (sampleNonce 7) 1)])

def upLink : Link Unit × History := Transition.runFrom (stepHistory .sample) (sample, {}) upEvents

theorem upLink_reachable : FittingReachable .sample upLink := by
  have hstart : FittingReachable .sample (sample, {}) := .start ⟨sample_init, rfl⟩
  refine hstart.runFrom ⟨?_, ?_, ?_, ?_, ?_, ?_, ?_, ?_, ?_, trivial⟩
  · exact fitting_leaf rfl rfl
  · exact fitting_leaf rfl rfl
  · exact fitting_leaf rfl (by decide +kernel)
  · exact fitting_leaf rfl rfl
  · exact fitting_leaf rfl rfl
  · exact fitting_bridge (by decide +kernel) trivial
  · exact fitting_bridge (by decide +kernel) trivial
  · exact fitting_bridge (by decide +kernel) trivial
  · exact fitting_leaf rfl (by decide +kernel)

/-- The bridge sends the command `value`, and its first fragment, `plaintext`, arrives. -/
def commandEvent (value : Bytes) : Event Unit := .bridge (.command (Bridge.sampleEnv 1300) 0 value)

def fragmentEvent (plaintext : Bytes) : Event Unit :=
  toLeaf 1310 (sampleNonce 1) (Remote.sealedTo sampleLeafMac Bridge.sampleKey .command 4 plaintext)

/-- A command of one fragment. -/
def shortLink : Link Unit × History :=
  Transition.runFrom (stepHistory .sample) upLink [commandEvent [1], fragmentEvent [0, 0, 0, 1, 1, 1]]

theorem shortLink_reachable : FittingReachable .sample shortLink := by
  have hrun : stays upLink.1.bridge (.command (Bridge.sampleEnv 1300) 0 [1]) ∧
      upLink.1.bridge.session?.all (fun x =>
        decide (chunkCount [1].length x.limits.maxEntityFragment < 2 ^ 8)) := by
    decide +kernel
  obtain ⟨hstays, hone⟩ := hrun
  have hnarrow : upLink.1.bridge.Narrow (.command (Bridge.sampleEnv 1300) 0 [1]) := by
    intro x hx
    rw [hx] at hone
    exact of_decide_eq_true hone
  exact upLink_reachable.runFrom
    ⟨fitting_bridge hstays hnarrow, fitting_leaf rfl (by decide +kernel), trivial⟩

/-- A command of one byte is executed once, with its value. -/
theorem commands_atMostOnce_shortLink :
    executions shortLink.1.leaf.radio.effects = [⟨4, 0, [1]⟩] ∧
      AtMostOnce shortLink.2.given shortLink.1.leaf.radio.effects :=
  ⟨by decide +kernel, commands_atMostOnce .sample shortLink shortLink_reachable⟩

/-- A command of 256 fragments. -/
@[irreducible] def longValue : Bytes := List.replicate 56101 0

/-- What its first fragment carries: it claims to be the only one. -/
def cutFragment : Bytes := [0, 1, 0, 1, 220] ++ List.replicate 220 0

theorem chunkCount_longValue : chunkCount longValue.length 220 = 256 := by
  rw [longValue, List.length_replicate]
  rfl

theorem bytes_longValue : (Bridge.commandFragment 0 longValue 220 256 0).bytes = cutFragment := by
  have hslice : slice longValue (0 * 220) 220 = List.replicate 220 0 := by
    rw [slice, Nat.zero_mul, List.drop_zero, longValue, List.take_replicate]
    rfl
  unfold Bridge.commandFragment EntityPayload.bytes
  dsimp only
  rw [hslice, List.length_replicate]
  rfl

/-- The bridge sends `value`, and only its first fragment arrives. -/
def cutEvents (value : Bytes) : List (Event Unit) := [commandEvent value, fragmentEvent cutFragment]

/-- The session of the bridge by then. -/
def upSessionOk (x : Bridge.Session) : Bool :=
  x.online && x.sessionKeyValid && x.sessionKey == Bridge.sampleKey && x.txCounter == 4 &&
    x.drawn == 3 && x.limits.maxEntityFragment == 220 && x.sessionMaxPayload == v1MaxPayload

/-- What the bridge does with a value of 256 fragments. -/
theorem call_cut {value : Bytes} (hcount : chunkCount value.length 220 = 256)
    (hbytes : (Bridge.commandFragment 0 value 220 256 0).bytes = cutFragment) :
    upLink.1.bridge.given? (.command (Bridge.sampleEnv 1300) 0 value) = some ⟨4, 0, value⟩ ∧
      .encrypt .command Bridge.sampleKey 4 cutFragment ∈
        (upLink.1.bridge.call .sample (.command (Bridge.sampleEnv 1300) 0 value)).hub.effects ∧
      stays upLink.1.bridge (.command (Bridge.sampleEnv 1300) 0 value) := by
  have hsession : upLink.1.bridge.session?.any upSessionOk := by decide +kernel
  obtain ⟨x, hx, hok⟩ := (Option.any_eq_true _ _).mp hsession
  simp only [upSessionOk, Bool.and_eq_true, beq_iff_eq] at hok
  obtain ⟨⟨⟨⟨⟨⟨honline, hvalid⟩, hkey⟩, htx⟩, hdrawn⟩, hsize⟩, hpayload⟩ := hok
  generalize upLink.1.bridge = b at hx ⊢
  set o := Bridge.sendCommandLoop .sample (Bridge.sampleEnv 1300) x.link.nextHopMac 0 value 4 true 220
    256 256 0 b.hub x with ho
  have hcall : (b.call .sample (.command (Bridge.sampleEnv 1300) 0 value)).hub.effects = o.1.effects ∧
      (b.call .sample (.command (Bridge.sampleEnv 1300) 0 value)).session? = some o.2.1 := by
    unfold Bridge.call Bridge.command
    dsimp only
    rw [hx]
    dsimp only
    unfold Bridge.sendCommandToLeaf Bridge.sendCommand Bridge.sendCommandFragments
    rw [if_neg (by simp [honline, hvalid])]
    dsimp only
    rw [hsize, hcount, htx, ← ho]
    obtain ⟨h', x', sent⟩ := o
    cases sent <;> exact ⟨rfl, rfl⟩
  refine ⟨?_, ?_, ?_⟩
  · unfold Bridge.given?
    dsimp only
    rw [hx, Option.filter_some, if_pos (by simp [honline, hvalid]), Option.map_some, htx]
  · rw [hcall.1, ← hbytes, ← hkey]
    refine Bridge.sendCommandLoop_first _ _ _ _ _ _ _ hvalid ?_ (fun _ => rfl) (fun _ _ => rfl)
    rw [hbytes, hpayload]
    decide +kernel
  · have hle := Bridge.sendCommandLoop_drawn_le (c := .sample) (e := Bridge.sampleEnv 1300)
      (h := b.hub) (x := x) x.link.nextHopMac 0 value 4 220 256 256 0
    rw [← ho, hdrawn] at hle
    unfold stays
    rw [hcall.2, Option.any_some]
    exact decide_eq_true (by omega)

/-- The arrival of the first fragment. -/
def cutCall : Remote.Call :=
  .frame (.quiet 1310 (sampleNonce 1)) sampleBridgeMac
    (Remote.sealedTo sampleLeafMac Bridge.sampleKey .command 4 cutFragment) (-50)

theorem runFrom_cutEvents (s : Link Unit × History) (value : Bytes) :
    Transition.runFrom (stepHistory .sample) s (cutEvents value) =
      (⟨s.1.leaf.call .sample cutCall,
        s.1.bridge.call .sample (.command (Bridge.sampleEnv 1300) 0 value)⟩,
      { s.2 with
        given := (s.1.bridge.given? (.command (Bridge.sampleEnv 1300) 0 value)).toList ++ s.2.given }) :=
  rfl

/-- The leaf executes the fragment as if it were the whole. -/
theorem executes_cut {value : Bytes} (hcount : chunkCount value.length 220 = 256)
    (hbytes : (Bridge.commandFragment 0 value 220 256 0).bytes = cutFragment)
    (hlength : value.length ≠ 220) {s : Link Unit × History}
    (hs : s = Transition.runFrom (stepHistory .sample) upLink (cutEvents value)) :
    Transition.Reachable InitHistory (OneLifetime .sample) (stepHistory .sample) s ∧
      ¬ AtMostOnce s.2.given s.1.leaf.radio.effects := by
  obtain ⟨hgiven, hsent, hstays⟩ := call_cut hcount hbytes
  have hreachable : Transition.Reachable InitHistory (OneLifetime .sample) (stepHistory .sample) upLink :=
    upLink_reachable.mono fun _ _ h => h.lifetime
  have hrun : (parseFrame (Remote.sealedTo sampleLeafMac Bridge.sampleKey .command 4 cutFragment)).all
        (fun f => f.type? == some .command && f.header.txCounter == 4 &&
          (upLink.1.leaf.openFrame .sample f).all (· == cutFragment)) ∧
      upLink.1.leaf.session.sessionKey = Bridge.sampleKey ∧ upLink.2.given = [] ∧
      executions (upLink.1.leaf.call .sample cutCall).radio.effects =
        [⟨4, 0, List.replicate 220 0⟩] := by
    decide +kernel
  obtain ⟨hopened, hkey, hnone, hexecuted⟩ := hrun
  have hdelivers : Delivers .sample
      { upLink.1 with bridge := upLink.1.bridge.call .sample (.command (Bridge.sampleEnv 1300) 0 value) }
      cutCall := by
    have hframe (f : Frame) (hf : parseFrame (Remote.sealedTo sampleLeafMac Bridge.sampleKey .command 4
        cutFragment) = some f) : f.type? = some .command ∧ f.header.txCounter = 4 ∧
        ∀ plaintext, upLink.1.leaf.openFrame .sample f = some plaintext → plaintext = cutFragment := by
      rw [hf, Option.all_some] at hopened
      simp only [Bool.and_eq_true, beq_iff_eq] at hopened
      refine ⟨hopened.1.1, hopened.1.2, fun plaintext hopen => ?_⟩
      rw [hopen] at hopened
      exact beq_iff_eq.mp hopened.2
    refine ⟨fun f plaintext hf htype hopen => ?_, fun f hf haccepts => ?_⟩
    · obtain ⟨-, htx, hplain⟩ := hframe f hf
      dsimp only at hopen ⊢
      rw [hkey, htx, hplain plaintext hopen]
      exact hsent
    · cases (hframe f hf).1.symm.trans haccepts.type
  subst hs
  generalize upLink = up at hgiven hnone hexecuted hreachable hdelivers hstays ⊢
  refine ⟨hreachable.runFrom ⟨oneLifetime_of hstays, hdelivers, trivial⟩, fun hone => ?_⟩
  rw [runFrom_cutEvents] at hone
  have hin := hone.given ⟨4, 0, List.replicate 220 0⟩ (by
    rw [hexecuted]
    exact List.mem_cons_self)
  dsimp only at hin
  rw [hgiven, hnone] at hin
  have heq : List.replicate 220 0 = value := congrArg Given.value (List.mem_singleton.mp hin)
  exact hlength (by rw [← heq, List.length_replicate])

/-- A command of 256 fragments is executed when the first of them arrives: the number of fragments
is a byte, and the first fragment claims to be the only one. -/
theorem command_cut : ∃ s, Transition.Reachable InitHistory (OneLifetime .sample) (stepHistory .sample) s ∧
    s = Transition.runFrom (stepHistory .sample) upLink (cutEvents longValue) ∧
    ¬ AtMostOnce s.2.given s.1.leaf.radio.effects := by
  obtain ⟨hreachable, hmost⟩ := executes_cut chunkCount_longValue bytes_longValue
    (by rw [longValue, List.length_replicate]; decide) rfl
  exact ⟨_, hreachable, rfl, hmost⟩

end Link

end EspTree
