import DmmrOrbit.Lib.Attempt
import DmmrOrbit.Socket.Pools
import DmmrOrbit.Socket.TcpSetup
import DmmrOrbit.Socket.Uri

/-!
# Opening the sockets of an endpoint

The way of an endpoint from its URI to the system calls: `start_accept_from_uri` and
`create_dispatcher_from_uri` have the URI parsed, `start_acception` and `start_dispatcher_tcp` get a
protocol record and fill it with what `dns2ipaddr` makes of the host, and `start_udp_service`,
`start_tcp_service` and `connect_tcp_server` open a socket with what the record says.

What the kernel, the resolver and the allocators answer is an `EndpointEnv`.  A `Run` has the system
calls in their order, with the bytes of the addresses that they are given.  The callbacks that the
records carry are left out, but for whether there is an `on_connect_cb`.
-/

set_option autoImplicit false

namespace DmmrOrbit

open Attempt

/-! ## Addresses -/

/-- `sa_family_t`: the values of the two types are `AF_INET` and `AF_INET6`. -/
def EzpAddrType.saFamily (family : EzpAddrType) : UInt16 := .ofNat family.value

/-- `htons` on a little-endian host. -/
def htons (x : UInt16) : UInt16 := (x <<< 8) ||| (x >>> 8)

/-- The bytes of a number in the memory of a little-endian host. -/
def memory16 (x : UInt16) : List UInt8 := [x.toUInt8, (x >>> 8).toUInt8]

/-- `struct sockaddr_in` and `struct sockaddr_in6`, the port in network byte order. -/
inductive SockAddr
  | inet (port : UInt16) (addr : Bytes 4) (zero : Bytes 8)
  | inet6 (port : UInt16) (flowinfo : Bytes 4) (addr : Bytes 16) (scope : Bytes 4)
  deriving DecidableEq, Repr

namespace SockAddr

def family : SockAddr → EzpAddrType
  | inet _ _ _ => .ipv4
  | inet6 _ _ _ _ => .ipv6

theorem family_eq (a : SockAddr) : a.family = .ipv4 ∨ a.family = .ipv6 := by
  cases a with
  | inet _ _ _ => exact .inl rfl
  | inet6 _ _ _ _ => exact .inr rfl

def port : SockAddr → UInt16
  | inet port _ _ => port
  | inet6 port _ _ _ => port

def addr : SockAddr → List UInt8
  | inet _ addr _ => addr.toList
  | inet6 _ _ addr _ => addr.toList

/-- Where the address starts in the structure. -/
def addrOffset : SockAddr → ℕ
  | inet _ _ _ => 4
  | inet6 _ _ _ _ => 8

/-- The structure in memory. -/
def toBytes : SockAddr → List UInt8
  | inet port addr zero =>
    memory16 EzpAddrType.ipv4.saFamily ++ memory16 port ++ addr.toList ++ zero.toList
  | inet6 port flowinfo addr scope =>
    memory16 EzpAddrType.ipv6.saFamily ++ memory16 port ++ flowinfo.toList ++ addr.toList ++
      scope.toList

end SockAddr

/-- The `sizeof` that goes with a test for `AF_INET`. -/
def EzpAddrType.sockAddrSize (family : EzpAddrType) : ℕ := if family = .ipv4 then 16 else 28

theorem SockAddr.length_toBytes (a : SockAddr) : a.toBytes.length = a.family.sockAddrSize := by
  cases a with
  | inet port addr zero =>
    simp [toBytes, memory16, addr.length_eq, zero.length_eq, family, EzpAddrType.sockAddrSize]
  | inet6 port flowinfo addr scope =>
    simp [toBytes, memory16, flowinfo.length_eq, addr.length_eq, scope.length_eq, family,
      EzpAddrType.sockAddrSize]

/-! ## Resolution -/

/-- What `getaddrinfo` answers: nothing if it fails, else a list, with `none` for an entry of a
family other than these two. -/
abbrev Resolution := Option (List (Option SockAddr))

/-- The loop of `dns2ipaddr`. -/
def dns2ipaddrLoop : List (Option SockAddr) → Bytes 28 → EzpAddrType × Bytes 28
  | [], out => (.invalid, out)
  | some a :: _, out => (a.family, out.write a.toBytes)
  | none :: p, out => dns2ipaddrLoop p out

/-- `dns2ipaddr`: the type, and the buffer of the caller. -/
def dns2ipaddr (res : Resolution) (out : Bytes 28) : EzpAddrType × Bytes 28 :=
  match res with
  | none => (.invalid, out)
  | some p => dns2ipaddrLoop p out

/-- The address that a name is resolved to. -/
def Resolution.resolved (res : Resolution) : Option SockAddr := res.bind fun p ↦ p.findSome? id

theorem dns2ipaddr_eq (res : Resolution) (out : Bytes 28) : dns2ipaddr res out =
    match res.resolved with
    | some a => (a.family, out.write a.toBytes)
    | none => (.invalid, out) := by
  cases res with
  | none => rfl
  | some p =>
    show dns2ipaddrLoop p out = match p.findSome? id with | some a => _ | none => _
    induction p with
    | nil => rfl
    | cons x p ih =>
      cases x with
      | some a => rfl
      | none => exact ih

/-! ## System calls -/

inductive SockType
  | stream
  | dgram
  deriving DecidableEq, Repr

/-- The calls on the way, with what they are given; `socket` has its answer too. -/
inductive SysCall
  | socket (domain : EzpAddrType) (type : SockType) (ret : ℤ)
  | getFlags (fd : ℤ)
  | setFlags (fd : ℤ) (flags : UInt32)
  | setReuseAddr (fd : ℤ)
  | bind (fd : ℤ) (addr : List UInt8)
  | listen (fd : ℤ) (backlog : ℕ)
  | connect (fd : ℤ) (addr : List UInt8)
  | getsockname (fd : ℤ)
  | pthreadCreate
  | close (fd : ℤ)
  | onConnectCb (tn : ℕ)
  deriving DecidableEq, Repr

/-- The answers. -/
structure SysResults where
  socket : ℤ
  getFlags : UInt32
  setFlags : ℤ
  setsockopt : ℤ
  bind : ℤ
  listen : ℤ
  connect : ℤ
  getsockname : Option ClientAddr
  pthreadCreate : ℤ

/-- What an endpoint meets.  `buf` and `port` are the stack as the functions find it, and `aligned`
is whether the host can be copied by words. -/
structure EndpointEnv where
  getaddrinfo : List UInt8 → Resolution
  sys : SysResults
  cap : Realloc ProtocolBaseCb
  nodePool : Realloc Node
  tcpPool : Realloc TcpNode
  buf : Bytes 28
  port : UInt16
  aligned : Bool

/-- `O_NONBLOCK`. -/
def oNonblock : UInt32 := 0x800

/-- The entry at an index; past the array that is what memory happens to hold. -/
def Pool.read {α : Type} (p : Pool α) (env : Realloc α) (i : ℕ) : α :=
  p.entries.getD i (env.fresh i)

/-! ## The services -/

/-- How a function ends. -/
inductive Ending
  | returned (ret : ℤ)
  | nullPointer
  deriving DecidableEq, Repr

/-- The record that a service was started for, and how that ended. -/
structure ServiceEnd where
  node : ProtocolBaseCb
  ending : Ending

/-- The first argument of `socket`. -/
def Node.domain (cfg : Node) : EzpAddrType := if cfg.family = .ipv4 then .ipv4 else .ipv6

def ProtocolBaseCb.setFd (u : ProtocolBaseCb) (fd : ℤ) : ProtocolBaseCb :=
  { u with nodeCfg := { u.nodeCfg with fd := fd } }

/-- The `switch` over the families that calls `bind`. -/
def bindNode (r : SysResults) (cfg : Node) (label rest : Run SysCall ServiceEnd) :
    Run SysCall ServiceEnd :=
  match cfg.family with
  | .ipv4 => attempt (.bind cfg.fd (cfg.ipv4.take 16)) (r.bind = 0) label rest
  | .ipv6 => attempt (.bind cfg.fd (cfg.ipv6.take 28)) (r.bind = 0) label rest
  | .dns => rest
  | .invalid => rest

/-- `start_udp_service`. -/
def startUdpService (r : SysResults) (node : UdpNode) : Run SysCall ServiceEnd :=
  let sock := r.socket
  let node := { node with run := true }.setFd sock
  let returnError := finish ⟨node, .returned eof⟩
  let returnSocketError := call (.close sock) returnError
  attempt (.socket node.nodeCfg.domain .dgram sock) (sock ≠ eof) returnError <|
  bindNode r node.nodeCfg returnSocketError <|
  call .pthreadCreate <|
  finish ⟨node, .returned r.pthreadCreate⟩

/-- The exit of `start_tcp_service` for a thread that could not be created.  What it closes is not
the socket but the descriptor of the node that `node->node` points to. -/
def closeNode (nodes : ℕ → Node) (node : TcpNode) : Run SysCall ServiceEnd :=
  match node.node with
  | some k => call (.close (nodes k).fd) (finish ⟨node, .returned eof⟩)
  | none => finish ⟨node, .nullPointer⟩

/-- `start_tcp_service`. -/
def startTcpService (r : SysResults) (nodes : ℕ → Node) (node : TcpNode) :
    Run SysCall ServiceEnd :=
  let sock := r.socket
  let node := node.setFd sock
  let returnError := finish ⟨node, .returned eof⟩
  let returnSocketError := call (.close sock) returnError
  attempt (.socket node.nodeCfg.domain .stream sock) (sock ≠ eof) returnError <|
  call (.getFlags sock) <|
  attempt (.setFlags sock (r.getFlags ||| oNonblock)) (r.setFlags = 0) returnSocketError <|
  attempt (.setReuseAddr sock) (r.setsockopt = 0) returnSocketError <|
  bindNode r node.nodeCfg returnSocketError <|
  attempt (.listen sock 64) (r.listen = 0) returnSocketError <|
  let node := { node with run := true }
  attempt .pthreadCreate (r.pthreadCreate = 0) (closeNode nodes node) <|
  finish ⟨node, .returned 0⟩

/-! ## Accepting -/

/-- What `start_acception` leaves: the array, the record that it got of it, and how it ended. -/
structure AcceptEnd where
  cap : Pool ProtocolBaseCb
  obtained : Option (ℕ × ProtocolBaseCb)
  ending : Ending

/-- The `switch` that copies the address that was found. -/
def Node.copyAddr (cfg : Node) (type : EzpAddrType) (buf : Bytes 28) : Node :=
  match type with
  | .ipv4 => { cfg with ipv4 := overlay (buf.toList.take 16) cfg.ipv4 }
  | .ipv6 => { cfg with ipv6 := overlay buf.toList cfg.ipv6 }
  | .dns => cfg
  | .invalid => cfg

/-- The record as it is filled for an endpoint. -/
def ProtocolBaseCb.configure (cb : ProtocolBaseCb) (proto : Proto) (port : UInt16)
    (type : EzpAddrType) (buf : Bytes 28) : ProtocolBaseCb :=
  { cb with
    proto := proto
    nodeCfg := { cb.nodeCfg.copyAddr type buf with port := port, family := type } }

/-- A branch of `start_acception`. -/
def startAcceptionBranch (proto : Proto) (service : ProtocolBaseCb → Run SysCall ServiceEnd)
    (env : EndpointEnv) (cap : Pool ProtocolBaseCb) (port : UInt16) (ip : List UInt8) :
    Run SysCall AcceptEnd :=
  match getUnionProtocolBaseCb cap env.cap with
  | (none, cap) => finish ⟨cap, none, .returned eof⟩
  | (some i, cap) =>
    let cb := cap.read env.cap i
    let (type, buf) := dns2ipaddr (env.getaddrinfo ip) env.buf
    if type = .ipv4 ∨ type = .ipv6 then
      (service (cb.configure proto port type buf)).map fun e ↦
        ⟨cap.write i e.node, some (i, e.node), e.ending⟩
    else finish ⟨cap, some (i, cb), .returned eof⟩

/-- The record that a call gets, as it finds it. -/
def obtainCb (cap : Pool ProtocolBaseCb) (env : Realloc ProtocolBaseCb) : Option ProtocolBaseCb :=
  match getUnionProtocolBaseCb cap env with
  | (none, _) => none
  | (some i, cap) => some (cap.read env i)

section

variable {proto : Proto} {service : ProtocolBaseCb → Run SysCall ServiceEnd} {env : EndpointEnv}
  {cap cap' : Pool ProtocolBaseCb} {port : UInt16} {ip : List UInt8} {i : ℕ}

theorem obtainCb_of_none (hget : getUnionProtocolBaseCb cap env.cap = (none, cap')) :
    obtainCb cap env.cap = none := by
  rw [obtainCb, hget]

theorem obtainCb_of_some (hget : getUnionProtocolBaseCb cap env.cap = (some i, cap')) :
    obtainCb cap env.cap = some (cap'.read env.cap i) := by
  rw [obtainCb, hget]

theorem startAcceptionBranch_of_none (hget : getUnionProtocolBaseCb cap env.cap = (none, cap')) :
    startAcceptionBranch proto service env cap port ip = finish ⟨cap', none, .returned eof⟩ := by
  rw [startAcceptionBranch, hget]

theorem startAcceptionBranch_of_resolved {a : SockAddr}
    (hget : getUnionProtocolBaseCb cap env.cap = (some i, cap'))
    (hres : (env.getaddrinfo ip).resolved = some a) :
    startAcceptionBranch proto service env cap port ip =
      (service ((cap'.read env.cap i).configure proto port a.family
        (env.buf.write a.toBytes))).map fun e ↦
          ⟨cap'.write i e.node, some (i, e.node), e.ending⟩ := by
  rw [startAcceptionBranch, hget]
  dsimp only
  rw [dns2ipaddr_eq, hres]
  exact if_pos a.family_eq

theorem startAcceptionBranch_of_unresolved
    (hget : getUnionProtocolBaseCb cap env.cap = (some i, cap'))
    (hres : (env.getaddrinfo ip).resolved = none) :
    startAcceptionBranch proto service env cap port ip =
      finish ⟨cap', some (i, cap'.read env.cap i), .returned eof⟩ := by
  rw [startAcceptionBranch, hget]
  dsimp only
  rw [dns2ipaddr_eq, hres]
  exact if_neg (by simp)

end

/-- `start_acception`. -/
def startAcception (env : EndpointEnv) (nodes : ℕ → Node) (cap : Pool ProtocolBaseCb)
    (proto : Proto) (port : UInt16) (ip : List UInt8) : Run SysCall AcceptEnd :=
  match proto with
  | .udp => startAcceptionBranch .udp (startUdpService env.sys) env cap port ip
  | .tcp => startAcceptionBranch .tcp (startTcpService env.sys nodes) env cap port ip
  | .none => finish ⟨cap, none, .returned eof⟩

/-- What the two functions that take a URI make of it; the host is a buffer of 256 bytes. -/
def EndpointEnv.parse (env : EndpointEnv) (uri : List UInt8) : ParsedUri 0x100 :=
  parseProtocolHostPort env.aligned uri (.zero 0x100) env.port

/-- `start_accept_from_uri`. -/
def startAcceptFromUri (env : EndpointEnv) (nodes : ℕ → Node) (cap : Pool ProtocolBaseCb)
    (uri : List UInt8) : Run SysCall AcceptEnd :=
  let parsed := env.parse uri
  if parsed.proto = .none then finish ⟨cap, none, .returned eof⟩
  else
    startAcception env nodes cap parsed.proto parsed.portOut (cstr parsed.hostOut.toList)

/-! ## Connecting -/

/-- The three arrays of records. -/
structure EndpointPools where
  cap : Pool ProtocolBaseCb
  nodePool : Pool Node
  tcpPool : Pool TcpNode

/-- The record that a connection was made for, the arrays, and what is returned. -/
structure ConnectEnd where
  node : TcpNode
  pools : EndpointPools
  ret : ℤ

/-- The bytes that `connect` reads: as many as the family needs, from the start of `ipv4` on.
Behind `ipv4` there is `value`. -/
def Node.connectAddr (cfg : Node) : List UInt8 :=
  (cfg.ipv4 ++ cfg.value).take cfg.family.sockAddrSize

/-- `connect_tcp_server`. -/
def connectTcpServer (mtu : MtuProfile) (env : EndpointEnv) (onConnectCb : Bool)
    (pools : EndpointPools) (node : TcpNode) : Run SysCall ConnectEnd :=
  let sock := env.sys.socket
  let node := node.setFd sock
  let returnError (pools : EndpointPools) := finish (⟨node, pools, eof⟩ : ConnectEnd)
  let returnCloseSocketError pools := call (.close sock) (returnError pools)
  attempt (.socket node.nodeCfg.domain .stream sock) (sock ≠ eof) (returnError pools) <|
  attempt (.connect sock node.nodeCfg.connectAddr) (env.sys.connect = 0)
    (returnCloseSocketError pools) <|
  match getNode pools.nodePool env.nodePool with
  | (none, nodePool) => returnCloseSocketError { pools with nodePool := nodePool }
  | (some k, nodePool) =>
    let n := connectNode node sock env.sys.getsockname (nodePool.read env.nodePool k)
    let pools := { pools with nodePool := nodePool.write k n }
    call (.getsockname sock) <|
    match getTcpNode pools.tcpPool env.tcpPool with
    | (none, tcpPool) =>
      returnCloseSocketError
        { pools with nodePool := deleteNode mtu pools.nodePool k, tcpPool := tcpPool }
    | (some i, tcpPool) =>
      let tn := connectTcpNode node k (tcpPool.read env.tcpPool i)
      let done := finish ⟨node, { pools with tcpPool := tcpPool.write i tn }, 0⟩
      call .pthreadCreate <|
      if env.sys.pthreadCreate = 0 ∧ onConnectCb then call (.onConnectCb i) done else done

/-- `start_dispatcher_tcp`; without a record it ends without a `return`. -/
def startDispatcherTcp (mtu : MtuProfile) (env : EndpointEnv) (onConnectTcpCb : Bool)
    (pools : EndpointPools) (ip : List UInt8) (port : UInt16) :
    Run SysCall (EndpointPools × Option ℤ) :=
  match getUnionProtocolBaseCb pools.cap env.cap with
  | (none, cap) => finish ({ pools with cap := cap }, none)
  | (some i, cap) =>
    let cb := cap.read env.cap i
    let (type, buf) := dns2ipaddr (env.getaddrinfo ip) env.buf
    let cb := cb.configure .tcp port type buf
    (connectTcpServer mtu env onConnectTcpCb { pools with cap := cap } cb).map fun e ↦
      ({ e.pools with cap := e.pools.cap.write i e.node }, some (if e.ret ≠ 0 then eof else 0))

/-- `create_dispatcher_from_uri`.  The branch for UDP sets up the `udp_pool`, which nothing uses,
and ends without a `return`. -/
def createDispatcherFromUri (mtu : MtuProfile) (env : EndpointEnv) (onConnectTcpCb : Bool)
    (pools : EndpointPools) (uri : List UInt8) : Run SysCall (EndpointPools × Option ℤ) :=
  let parsed := env.parse uri
  match parsed.proto with
  | .udp => finish (pools, none)
  | .tcp =>
    startDispatcherTcp mtu env onConnectTcpCb pools (cstr parsed.hostOut.toList) parsed.portOut
  | .none => finish (pools, some eof)

end DmmrOrbit
