import DmmrOrbit.Socket.Service

/-!
# The endpoint that a socket is opened for

Of the three parts of an endpoint the family and the address reach the system call in the
`struct sockaddr` that `getaddrinfo` made, and the port is put into `node_cfg.port`, which nothing
reads afterwards.  `getaddrinfo` is called without a service, so the port of its structures is 0,
and that is the port that is bound or connected to.  For IPv6 `connect_tcp_server` goes wrong
further: it passes the bytes at `ipv4`, and the address was copied to `ipv6`.

`reachesSockets_iff` is when the configured endpoint reaches the calls all the same: if its port is
0, and for a connection by IPv6 if the record held the bytes of the address at `ipv4` already, which
a record in zeroed memory does not (`not_addressed_zero`).
-/

set_option autoImplicit false

namespace DmmrOrbit

open Attempt

/-! ## Bytes of an address -/

theorem memory16_injective {x y : UInt16} (h : memory16 x = memory16 y) : x = y := by
  simp only [memory16, List.cons.injEq] at h
  obtain ⟨hlow, hhigh, -⟩ := h
  have hlow := congrArg UInt8.toNat hlow
  have hhigh := congrArg UInt8.toNat hhigh
  simp [UInt16.toNat_shiftRight, Nat.shiftRight_eq_div_pow] at hlow hhigh
  have hx := x.toNat_lt
  have hy := y.toNat_lt
  apply UInt16.toNat_inj.1
  omega

theorem htons_eq_zero_iff {n : UInt16} : htons n = 0 ↔ n = 0 := by
  constructor
  · intro h
    have h := congrArg UInt16.toNat h
    simp [htons, UInt16.toNat_shiftRight, Nat.shiftRight_eq_div_pow, Nat.shiftLeft_eq] at h
    apply UInt16.toNat_inj.1
    show n.toNat = 0
    omega
  · rintro rfl
    rfl

/-- The bytes are a socket address with the family and the address of `a` and the port `n`. -/
structure Addressed (a : SockAddr) (n : UInt16) (bytes : List UInt8) : Prop where
  family : bytes.take 2 = memory16 a.family.saFamily
  port : (bytes.drop 2).take 2 = memory16 (htons n)
  addr : (bytes.drop a.addrOffset).take a.addr.length = a.addr

/-- The structure itself has the family and the address. -/
theorem addressed_toBytes_iff {a : SockAddr} {n : UInt16} :
    Addressed a n a.toBytes ↔ a.port = htons n := by
  have hport : (a.toBytes.drop 2).take 2 = memory16 a.port := by cases a <;> rfl
  refine ⟨fun h ↦ memory16_injective (hport.symm.trans h.port), fun h ↦ ⟨?_, ?_, ?_⟩⟩
  · cases a <;> rfl
  · rw [hport, h]
  · cases a with
    | inet port addr zero =>
      show (addr.toList ++ zero.toList).take addr.toList.length = addr.toList
      exact List.take_left
    | inet6 port flowinfo addr scope =>
      show ((memory16 _ ++ memory16 port ++ flowinfo.toList ++ addr.toList ++
        scope.toList).drop 8).take addr.toList.length = addr.toList
      have hlen : (memory16 EzpAddrType.ipv6.saFamily ++ memory16 port ++
          flowinfo.toList).length = 8 := by simp [memory16, flowinfo.length_eq]
      rw [List.append_assoc _ addr.toList, List.drop_left' hlen, List.take_left]

/-! ## What is bound -/

/-- What the `switch` of a service takes for `bind`. -/
def Node.bindAddr (cfg : Node) : Option (List UInt8) :=
  match cfg.family with
  | .ipv4 => some (cfg.ipv4.take 16)
  | .ipv6 => some (cfg.ipv6.take 28)
  | .dns => none
  | .invalid => none

/-- The answers with which a service gets as far as `bind`. -/
def SysResults.ReachesBind (r : SysResults) (p : Proto) : Prop :=
  r.socket ≠ eof ∧ (p = .tcp → r.setFlags = 0 ∧ r.setsockopt = 0)

section

variable {r : SysResults} {cfg : Node} {label rest : Run SysCall ServiceEnd} {fd : ℤ}
  {bytes : List UInt8}

theorem bind_mem_bindNode_iff (hlabel : .bind fd bytes ∉ label.calls)
    (hrest : .bind fd bytes ∉ rest.calls) : .bind fd bytes ∈ (bindNode r cfg label rest).calls ↔
      fd = cfg.fd ∧ cfg.bindAddr = some bytes := by
  cases hf : cfg.family with
  | ipv4 => simp [bindNode, Node.bindAddr, hf, mem_calls_attempt_self hlabel hrest, eq_comm]
  | ipv6 => simp [bindNode, Node.bindAddr, hf, mem_calls_attempt_self hlabel hrest, eq_comm]
  | dns => simp [bindNode, Node.bindAddr, hf, hrest]
  | invalid => simp [bindNode, Node.bindAddr, hf, hrest]

theorem bind_mem_startUdpService_iff {node : UdpNode} :
    .bind fd bytes ∈ (startUdpService r node).calls ↔
      r.ReachesBind .udp ∧ fd = r.socket ∧ node.nodeCfg.bindAddr = some bytes := by
  rw [startUdpService, mem_calls_attempt_iff (by simp) (by simp),
    bind_mem_bindNode_iff (by simp) (by simp)]
  simp [SysResults.ReachesBind, ProtocolBaseCb.setFd, Node.bindAddr]

theorem bind_mem_startTcpService_iff {nodes : ℕ → Node} {node : TcpNode} :
    .bind fd bytes ∈ (startTcpService r nodes node).calls ↔
      r.ReachesBind .tcp ∧ fd = r.socket ∧ node.nodeCfg.bindAddr = some bytes := by
  have hthread (node : TcpNode) : .bind fd bytes ∉ (closeNode nodes node).calls := by
    unfold closeNode
    cases node.node <;> simp
  rw [startTcpService, mem_calls_attempt_iff (by simp) (by simp), calls_call, List.mem_cons,
    or_iff_right (by simp), mem_calls_attempt_iff (by simp) (by simp),
    mem_calls_attempt_iff (by simp) (by simp), bind_mem_bindNode_iff (by simp)
      (notMem_calls_attempt (by simp) (by simp)
        (notMem_calls_attempt (by simp) (hthread _) (by simp)))]
  simp [SysResults.ReachesBind, ProtocolBaseCb.setFd, Node.bindAddr, and_assoc]

end

/-! ## What the record holds -/

variable {env : EndpointEnv} {nodes : ℕ → Node} {a : SockAddr} {p : Proto} {n : UInt16}
  {ip : List UInt8} {fd : ℤ} {bytes : List UInt8}

/-- What is copied to the record is the structure, from the start of the buffer. -/
theorem take_buf (buf : Bytes 28) (a : SockAddr) :
    (buf.write a.toBytes).toList.take a.family.sockAddrSize = a.toBytes := by
  rw [← a.length_toBytes]
  refine buf.take_write ?_
  rw [a.length_toBytes]
  cases a with
  | inet _ _ _ => exact (by decide : 16 ≤ 28)
  | inet6 _ _ _ _ => exact le_refl 28

/-- The address comes to the storage of its family as it is. -/
theorem bindAddr_configure (cb : ProtocolBaseCb) (buf : Bytes 28) :
    (cb.configure p n a.family (buf.write a.toBytes)).nodeCfg.bindAddr = some a.toBytes := by
  have hbuf := take_buf buf a
  cases a with
  | inet port addr zero =>
    have hlen : (SockAddr.inet port addr zero).toBytes.length = 16 := SockAddr.length_toBytes _
    show some ((overlay ((buf.write _).toList.take 16) cb.nodeCfg.ipv4).take 16) = _
    rw [show (buf.write _).toList.take 16 = _ from hbuf, take_overlay_of_length hlen]
  | inet6 port flowinfo addr scope =>
    show some ((overlay (buf.write _).toList cb.nodeCfg.ipv6).take 28) = _
    rw [take_overlay_of_length (Bytes.length_eq _)]
    refine congrArg some ?_
    exact (List.take_of_length_le (Bytes.length_eq _).le).symm.trans hbuf

/-- What `connect` reads of a record that was filled with the address: the address, if it is one of
IPv4, or else what stood at `ipv4`. -/
def SockAddr.connected (a : SockAddr) (old : Node) : List UInt8 :=
  match a with
  | inet _ _ _ => a.toBytes
  | inet6 _ _ _ _ => (old.ipv4 ++ old.value).take 28

theorem connectAddr_configure (cb : ProtocolBaseCb) (buf : Bytes 28) (sock : ℤ) :
    ((cb.configure p n a.family (buf.write a.toBytes)).setFd sock).nodeCfg.connectAddr =
      a.connected cb.nodeCfg := by
  have hbuf := take_buf buf a
  cases a with
  | inet port addr zero =>
    have hlen : (SockAddr.inet port addr zero).toBytes.length = 16 := SockAddr.length_toBytes _
    show (overlay ((buf.write _).toList.take 16) cb.nodeCfg.ipv4 ++ cb.nodeCfg.value).take 16 = _
    rw [show (buf.write _).toList.take 16 = _ from hbuf, overlay, List.append_assoc,
      List.take_left' hlen]
    rfl
  | inet6 port flowinfo addr scope => rfl

/-! ## The two paths -/

/-- `start_acception` binds the address that the host was resolved to, if it gets a record. -/
theorem bind_mem_startAcception_iff (hp : p ≠ .none) {cap : Pool ProtocolBaseCb}
    (hres : (env.getaddrinfo ip).resolved = some a) :
    .bind fd bytes ∈ (startAcception env nodes cap p n ip).calls ↔
      (obtainCb cap env.cap).isSome ∧ env.sys.ReachesBind p ∧ fd = env.sys.socket ∧
        bytes = a.toBytes := by
  cases hget : getUnionProtocolBaseCb cap env.cap with | mk r cap' =>
  cases r with
  | none =>
    rw [obtainCb_of_none hget]
    cases p with
    | none => exact absurd rfl hp
    | udp => simp [startAcception, startAcceptionBranch_of_none hget]
    | tcp => simp [startAcception, startAcceptionBranch_of_none hget]
  | some i =>
    rw [obtainCb_of_some hget]
    cases p with
    | none => exact absurd rfl hp
    | udp =>
      rw [startAcception, startAcceptionBranch_of_resolved hget hres, calls_map,
        bind_mem_startUdpService_iff, bindAddr_configure]
      simp [eq_comm]
    | tcp =>
      rw [startAcception, startAcceptionBranch_of_resolved hget hres, calls_map,
        bind_mem_startTcpService_iff, bindAddr_configure]
      simp [eq_comm]

/-- `connect_tcp_server` connects to what the record has at `ipv4`. -/
theorem connect_mem_connectTcpServer_iff {mtu : MtuProfile} {onConnectCb : Bool}
    {pools : EndpointPools} {node : TcpNode} :
    .connect fd bytes ∈ (connectTcpServer mtu env onConnectCb pools node).calls ↔
      env.sys.socket ≠ eof ∧ fd = env.sys.socket ∧
        bytes = (node.setFd env.sys.socket).nodeCfg.connectAddr := by
  rw [connectTcpServer, mem_calls_attempt_iff (by simp) (by simp),
    mem_calls_attempt_self (by simp) ?_]
  · simp
  · split
    · simp
    · rw [calls_call, List.mem_cons, or_iff_right (by simp)]
      split
      · simp
      · split
        · simp
        · simp

/-- `start_dispatcher_tcp` connects to the address only if it is one of IPv4. -/
theorem connect_mem_startDispatcherTcp_iff {mtu : MtuProfile} {onConnectTcpCb : Bool}
    {pools : EndpointPools} (hres : (env.getaddrinfo ip).resolved = some a) :
    .connect fd bytes ∈ (startDispatcherTcp mtu env onConnectTcpCb pools ip n).calls ↔
      ∃ cb, obtainCb pools.cap env.cap = some cb ∧ env.sys.socket ≠ eof ∧ fd = env.sys.socket ∧
        bytes = a.connected cb.nodeCfg := by
  cases hget : getUnionProtocolBaseCb pools.cap env.cap with | mk r cap' =>
  cases r with
  | none => simp [startDispatcherTcp, obtainCb, hget]
  | some i =>
    simp only [startDispatcherTcp, obtainCb, hget, calls_map, dns2ipaddr_eq, hres,
      connect_mem_connectTcpServer_iff, connectAddr_configure, Option.some.injEq,
      exists_eq_left']

/-! ## The configured endpoint -/

theorem startAcceptFromUri_of_parse {cap : Pool ProtocolBaseCb} {uri : List UInt8}
    {host : Bytes 0x100} (hparse : env.parse uri = ⟨p, host, n⟩) (hp : p ≠ .none) :
    startAcceptFromUri env nodes cap uri = startAcception env nodes cap p n (cstr host.toList) := by
  rw [startAcceptFromUri, hparse]
  exact if_neg hp

/-- Every address that is bound and every one that is connected to is the one that was
configured. -/
structure ReachesSockets (mtu : MtuProfile) (env : EndpointEnv) (nodes : ℕ → Node)
    (onConnectTcpCb : Bool) (pools : EndpointPools) (uri : List UInt8) (a : SockAddr)
    (n : UInt16) : Prop where
  bind : ∀ fd bytes, .bind fd bytes ∈ (startAcceptFromUri env nodes pools.cap uri).calls →
    Addressed a n bytes
  connect : ∀ fd bytes,
    .connect fd bytes ∈ (createDispatcherFromUri mtu env onConnectTcpCb pools uri).calls →
    Addressed a n bytes

/-- The endpoints that keep their port on the way, and their address. -/
structure EndpointKept (env : EndpointEnv) (pools : EndpointPools) (p : Proto) (a : SockAddr)
    (n : UInt16) : Prop where
  bind : (obtainCb pools.cap env.cap).isSome → env.sys.ReachesBind p → n = 0
  connect : p = .tcp → env.sys.socket ≠ eof → ∀ cb, obtainCb pools.cap env.cap = some cb →
    match a with
    | .inet _ _ _ => n = 0
    | .inet6 _ _ _ _ => Addressed a n ((cb.nodeCfg.ipv4 ++ cb.nodeCfg.value).take 28)

/-- A record in zeroed memory holds no address of IPv6 at `ipv4`. -/
theorem not_addressed_zero {mtu : MtuProfile} {port : UInt16} {flowinfo scope : Bytes 4}
    {addr : Bytes 16} : ¬ Addressed (.inet6 port flowinfo addr scope) n
      (((Node.zero mtu).ipv4 ++ (Node.zero mtu).value).take 28) := by
  intro h
  have hfamily : [0, 0] = memory16 EzpAddrType.ipv6.saFamily := h.family
  exact absurd hfamily (by decide)

/-- **When the configured endpoint reaches the sockets.**  For every URI that is accepted and every
resolution of its host, by a resolver that puts port 0 into its addresses: what is bound has the
family, the address and the port exactly if the port is 0, or nothing gets as far as to be bound,
and so has what is connected to by IPv4.  By IPv6 the bytes at the `ipv4` of the record, as it was,
have to be that address already. -/
theorem reachesSockets_iff {mtu : MtuProfile} {onConnectTcpCb : Bool} {pools : EndpointPools}
    {uri : List UInt8} {host : Bytes 0x100} (hparse : env.parse uri = ⟨p, host, n⟩)
    (hp : p ≠ .none) (hres : (env.getaddrinfo (cstr host.toList)).resolved = some a)
    (hnull : ∀ ip b, (env.getaddrinfo ip).resolved = some b → b.port = 0) :
    ReachesSockets mtu env nodes onConnectTcpCb pools uri a n ↔ EndpointKept env pools p a n := by
  have hport : Addressed a n a.toBytes ↔ n = 0 := by
    rw [addressed_toBytes_iff, hnull _ _ hres, eq_comm, htons_eq_zero_iff]
  constructor
  · intro h
    refine ⟨fun hcb hreach ↦ ?_, fun htcp hsock cb hcb ↦ ?_⟩
    · refine hport.1 (h.bind env.sys.socket _ ?_)
      rw [startAcceptFromUri_of_parse hparse hp]
      exact (bind_mem_startAcception_iff hp hres).2 ⟨hcb, hreach, rfl, rfl⟩
    · have haddr := h.connect env.sys.socket (a.connected cb.nodeCfg) (by
        rw [createDispatcherFromUri, hparse, htcp]
        exact (connect_mem_startDispatcherTcp_iff hres).2 ⟨cb, hcb, hsock, rfl, rfl⟩)
      cases a with
      | inet _ _ _ => exact hport.1 haddr
      | inet6 _ _ _ _ => exact haddr
  · intro h
    refine ⟨fun fd bytes hmem ↦ ?_, fun fd bytes hmem ↦ ?_⟩
    · rw [startAcceptFromUri_of_parse hparse hp] at hmem
      obtain ⟨hcb, hreach, -, rfl⟩ := (bind_mem_startAcception_iff hp hres).1 hmem
      exact hport.2 (h.bind hcb hreach)
    · rw [createDispatcherFromUri, hparse] at hmem
      cases p with
      | none => exact absurd rfl hp
      | udp => exact absurd hmem (by simp)
      | tcp =>
        obtain ⟨cb, hcb, hsock, -, rfl⟩ := (connect_mem_startDispatcherTcp_iff hres).1 hmem
        have hwhen := h.connect rfl hsock cb hcb
        cases a with
        | inet _ _ _ => exact hport.2 hwhen
        | inet6 _ _ _ _ => exact hwhen

/-! ## The loopback address -/

/-- `127.0.0.1`, with port 0. -/
def loopback : SockAddr := .inet 0 ⟨[127, 0, 0, 1], rfl⟩ (.zero 8)

/-- A resolver that knows this one address, and a kernel that grants everything. -/
def loopbackEnv : EndpointEnv where
  getaddrinfo ip := if ip = ascii "127.0.0.1" then some [some loopback] else none
  sys := ⟨3, 0, 0, 0, 0, 0, 0, none, 0⟩
  cap := ⟨fun _ ↦ .zero .mtu1500, false⟩
  nodePool := ⟨fun _ ↦ .zero .mtu1500, false⟩
  tcpPool := ⟨fun _ ↦ .zero .mtu1500, false⟩
  buf := .zero 28
  port := 0
  aligned := true

theorem loopbackEnv_null (ip : List UInt8) (b : SockAddr)
    (h : (loopbackEnv.getaddrinfo ip).resolved = some b) : b.port = 0 := by
  by_cases hip : ip = ascii "127.0.0.1"
  · have hb : (loopbackEnv.getaddrinfo ip).resolved = some loopback := by
      show Resolution.resolved (if ip = _ then _ else none) = _
      rw [if_pos hip]
      rfl
    obtain rfl := Option.some.inj (hb.symm.trans h)
    rfl
  · have hb : (loopbackEnv.getaddrinfo ip).resolved = none := by
      show Resolution.resolved (if ip = _ then _ else none) = _
      rw [if_neg hip]
      rfl
    exact absurd (hb.symm.trans h) (by simp)

/-- The pools at the start. -/
def loopbackPools : EndpointPools :=
  ⟨.calloc (.zero .mtu1500), .calloc (.zero .mtu1500), .calloc (.zero .mtu1500)⟩

/-- The endpoint `TCP/127.0.0.1:0`, of which nothing is lost. -/
theorem reachesSockets_port_zero : ReachesSockets .mtu1500 loopbackEnv (fun _ ↦ .zero .mtu1500)
    true loopbackPools (ascii "TCP/127.0.0.1:0") loopback 0 := by
  have hparse : loopbackEnv.parse (ascii "TCP/127.0.0.1:0") =
      ⟨.tcp, (loopbackEnv.parse (ascii "TCP/127.0.0.1:0")).hostOut, 0⟩ := by decide +kernel
  exact (reachesSockets_iff hparse (by decide) (by decide +kernel) loopbackEnv_null).2
    ⟨fun _ _ ↦ rfl, fun _ _ _ _ ↦ rfl⟩

/-- `TCP/127.0.0.1:80` is bound to port 0. -/
theorem not_reachesSockets : ¬ ∀ (mtu : MtuProfile) (env : EndpointEnv) (nodes : ℕ → Node)
    (onConnectTcpCb : Bool) (pools : EndpointPools) (uri : List UInt8) (p : Proto)
    (host : Bytes 0x100) (n : UInt16) (a : SockAddr), env.parse uri = ⟨p, host, n⟩ → p ≠ .none →
      (env.getaddrinfo (cstr host.toList)).resolved = some a →
      (∀ ip b, (env.getaddrinfo ip).resolved = some b → b.port = 0) →
        ReachesSockets mtu env nodes onConnectTcpCb pools uri a n := by
  intro h
  have hparse : loopbackEnv.parse (ascii "TCP/127.0.0.1:80") =
      ⟨.tcp, (loopbackEnv.parse (ascii "TCP/127.0.0.1:80")).hostOut, 80⟩ := by decide +kernel
  have hres : (loopbackEnv.getaddrinfo (cstr
      (loopbackEnv.parse (ascii "TCP/127.0.0.1:80")).hostOut.toList)).resolved = some loopback := by
    decide +kernel
  have hreach := h .mtu1500 loopbackEnv (fun _ ↦ .zero .mtu1500) true loopbackPools _ _ _ _ _
    hparse (by decide) hres loopbackEnv_null
  have hbound : Addressed loopback 80 loopback.toBytes := by
    refine hreach.bind 3 _ ?_
    rw [startAcceptFromUri_of_parse hparse (by decide)]
    exact (bind_mem_startAcception_iff (by decide) hres).2
      ⟨rfl, ⟨by decide, fun _ ↦ ⟨rfl, rfl⟩⟩, rfl, rfl⟩
  exact absurd hbound.port (by decide)

end DmmrOrbit
