/-
  FsBridge.Libwsc.Upgrade

  The HTTP part of the WebSocket client: the request (`sendHandshakeRequest`) and what
  `handleRead` makes of the response (module/libs/libwsc/src/WebSocketContext.cpp).

  The response ends at its first empty line; what stands behind it is frames already.
-/

import FsBridge.Libwsc.Receiver
import FsBridge.Libwsc.Send
import FsBridge.Module.StreamUri
import FsBridge.Module.TextCommands

namespace FsBridge.Libwsc

open FsBridge.Lib
open FsBridge.Lib.Decimal (print)
open FsBridge.Module.StreamUri (stoi)
open FsBridge.Module.TextCommands (tolower)

/-- `Config`, with the key of the context. -/
structure Config where
  host : Bytes
  port : Nat
  uri : Bytes
  /-- In the order of the keys, as `std::map` has them. -/
  headers : List (Bytes × Bytes)
  compression_requested : Bool
  ping_interval : Nat
  key : Bytes
deriving DecidableEq, Repr

def Config.plain : Config where
  host := ascii "localhost"
  port := 8080
  uri := ascii "/"
  headers := []
  compression_requested := false
  ping_interval := 0
  key := ascii "key"

/-- The same, asking for compression. -/
def Config.deflate : Config := { Config.plain with compression_requested := true }

-- ============================================================================
-- The request
-- ============================================================================

/-- What `%s` prints of `c_str()`. -/
def cStr (s : Bytes) : Bytes := s.takeWhile (· ≠ 0)

/-- `sendHandshakeRequest`. -/
def handshakeRequest (cfg : Config) : Bytes :=
  ascii "GET " ++ cStr cfg.uri ++ ascii " HTTP/1.1\r\n" ++
  ascii "Host:" ++ cStr cfg.host ++ ascii ":" ++ print cfg.port ++ ascii "\r\n" ++
  ascii "Upgrade:websocket\r\n" ++
  ascii "Connection:upgrade\r\n" ++
  ascii "Sec-WebSocket-Key:" ++ cStr cfg.key ++ ascii "\r\n" ++
  ascii "Sec-WebSocket-Version:13\r\n" ++
  (if cfg.compression_requested then
    ascii "Sec-WebSocket-Extensions:permessage-deflate; client_no_context_takeover; " ++
      ascii "server_no_context_takeover; client_max_window_bits=9\r\n"
  else []) ++
  ascii "Origin:http://" ++ cStr cfg.host ++ ascii ":" ++ print cfg.port ++ ascii "\r\n" ++
  cfg.headers.flatMap (fun header =>
    cStr header.1 ++ ascii ":" ++ cStr header.2 ++ ascii "\r\n") ++
  ascii "\r\n"

-- ============================================================================
-- The response
-- ============================================================================

/-- `\r\n\r\n`. -/
def emptyLine : Bytes := [13, 10, 13, 10]

/-- The end of the headers: the first empty line. -/
def headerBytes : Bytes → Option Nat
  | [] => none
  | c :: b => if emptyLine <+: c :: b then some 4 else (headerBytes b).map (· + 1)

/-- `std::string::find`. -/
def find (needle : Bytes) : Bytes → Option Nat
  | [] => if needle = [] then some 0 else none
  | c :: s => if needle <+: c :: s then some 0 else (find needle s).map (· + 1)

/-- `containsHeader`, and `hasToken`. -/
def containsHeader (response header : Bytes) : Bool :=
  (find (header.map tolower) (response.map tolower)).isSome

/-- `parseBits`. -/
def parseBits (extLine keyName : Bytes) : Int :=
  let ls := extLine.map tolower
  let needle := keyName ++ ascii "="
  match find needle ls with
  | none => 15
  | some p =>
      match stoi ((ls.drop (p + needle.length)).takeWhile fun c => c ∉ ascii " ;\r\n") with
      | none => 15
      | some v => if 8 ≤ v ∧ v ≤ 15 then v else 15

/-- `Sec-WebSocket-Extensions`: the first such line of the response. -/
def extensionLine (resp : Bytes) : Option Bytes :=
  (find (ascii "sec-websocket-extensions:") (resp.map tolower)).map fun extHeaderPos =>
    let line := resp.drop extHeaderPos
    line.take ((find [13, 10] line).getD line.length)

/-- What the response says of compression; `none`: it is not negotiated. -/
def negotiate (cfg : Config) (resp : Bytes) : Option PerMessageDeflateConfig :=
  if cfg.compression_requested then
    (extensionLine resp).bind fun extLine =>
      if containsHeader extLine (ascii "permessage-deflate") then
        some {
          enabled := true
          client_no_context_takeover :=
            containsHeader extLine (ascii "client_no_context_takeover")
          server_no_context_takeover :=
            containsHeader extLine (ascii "server_no_context_takeover")
          client_max_window_bits := parseBits extLine (ascii "client_max_window_bits")
          server_max_window_bits := parseBits extLine (ascii "server_max_window_bits")
          -- the `compression_level` of the context
          compression_level := 6 }
      else none
  else none

/-- The status line is looked for anywhere in the headers, and the value of
    `Sec-WebSocket-Accept` is not looked at. -/
def upgradeAccepted (resp : Bytes) : Bool :=
  (find (ascii "HTTP/1.1 101") resp).isSome && containsHeader resp (ascii "Sec-WebSocket-Accept:")

/-- A response that is accepted. -/
def plainResponse : Bytes :=
  ascii "HTTP/1.1 101 Switching Protocols\r\n" ++ ascii "Sec-WebSocket-Accept: accepted\r\n\r\n"

/-- A response that agrees on compression. -/
def deflateResponse : Bytes :=
  ascii "HTTP/1.1 101 Switching Protocols\r\n" ++ ascii "Sec-WebSocket-Accept: accepted\r\n" ++
    ascii "Sec-WebSocket-Extensions: permessage-deflate; client_no_context_takeover; " ++
    ascii "server_no_context_takeover\r\n\r\n"

section Compression

variable {Z : Zlib}

/-- `initializeCompression`; `none`: it returns false, and neither half is left. -/
def initializeCompression (cfg : PerMessageDeflateConfig) : Option (Inflater Z × Deflater Z) :=
  if ¬ cfg.enabled then some (⟨cfg, none⟩, ⟨cfg, none⟩)
  else
    match Z.inflateInit2 (-cfg.server_max_window_bits) with
    | none => none
    | some inflate_stream =>
        match (⟨cfg, none⟩ : Deflater Z).txInitDeflate with
        | none => none
        | some deflate_stream => some (⟨cfg, some inflate_stream⟩, ⟨cfg, some deflate_stream⟩)

end Compression

-- ============================================================================
-- Segments of the response
-- ============================================================================

theorem headerBytes_bounds {b : Bytes} {n : Nat} (h : headerBytes b = some n) :
    4 ≤ n ∧ n ≤ b.length := by
  induction b generalizing n with
  | nil => cases h
  | cons c b ih =>
      rw [headerBytes] at h
      by_cases hend : emptyLine <+: c :: b
      · rw [if_pos hend] at h
        obtain rfl := Option.some.inj h
        exact ⟨Nat.le_refl 4, hend.length_le⟩
      · rw [if_neg hend] at h
        obtain ⟨m, hm, rfl⟩ := Option.map_eq_some_iff.mp h
        obtain ⟨hlo, hhi⟩ := ih hm
        rw [List.length_cons]
        omega

/-- The end of the headers stays where it is when more arrives. -/
theorem headerBytes_append {b : Bytes} {n : Nat} (h : headerBytes b = some n) (more : Bytes) :
    headerBytes (b ++ more) = some n := by
  induction b generalizing n with
  | nil => cases h
  | cons c b ih =>
      rw [headerBytes] at h
      rw [List.cons_append, headerBytes]
      by_cases hend : emptyLine <+: c :: b
      · rw [if_pos hend] at h
        rw [← h]
        exact if_pos (hend.trans (List.prefix_append (c :: b) more))
      · rw [if_neg hend] at h
        obtain ⟨m, hm, rfl⟩ := Option.map_eq_some_iff.mp h
        have hlong : emptyLine.length ≤ (c :: b).length := by
          have hbounds := headerBytes_bounds hm
          show 4 ≤ b.length + 1
          omega
        have hmore : ¬ emptyLine <+: c :: (b ++ more) := fun hprefix =>
          hend (List.prefix_of_prefix_length_le hprefix (List.prefix_append (c :: b) more) hlong)
        rw [if_neg hmore, ih hm]
        rfl

end FsBridge.Libwsc
