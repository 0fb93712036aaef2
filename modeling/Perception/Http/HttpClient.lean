import Mathlib.Data.List.Infix
import Perception.Lib.IStream

/-!
# The HTTP client

A request is written and the response read until the connection is closed. What the network
delivers with each read is an input.
-/
namespace Perception.Http

set_option autoImplicit false

open Perception.Lib

/-- What comes of a request: the host is not reached, or there are reads and then the end
or an error, with its message. -/
inductive Net
  | unreachable (what : List Char)
  | response (reads : List (List Char)) (eof : Bool) (message : List Char)

def CRLF : List Char := ['\r', '\n']

/-- `read_until`: the buffer with the delimiter in it and the reads that are still to come;
none when the connection ends before. -/
def read_until (delim : List Char) (response_data : List Char) : List (List Char) → Option (List Char × List (List Char))
  | [] => if delim <:+: response_data then some (response_data, []) else none
  | c :: reads =>
    if delim <:+: response_data then some (response_data, c :: reads)
    else read_until delim (response_data ++ c) reads

/-- The loop over the lines of the header, which ends at the empty line or where the buffer
does. -/
def readHeaders (stream_header : IStream) : IStream :=
  let r := stream_header.getline '\n'
  if _hread : r.1 = true ∧ r.2.1 ≠ ['\r'] then readHeaders r.2.2 else r.2.2
termination_by stream_header.buf.length
decreasing_by exact IStream.length_getline_lt _hread.1

/-- The answer and `strRspData` afterwards. `status_code` is not initialised. -/
def PostOrGetData (net : Net) (status_code : Nat) (strRspData : List Char) : Int × List Char :=
  match net with
  | .unreachable what => (-1, what)
  | .response reads eof message =>
    match read_until CRLF [] reads with
    | none => (-1, "read_until: ".toList ++ message)
    | some (response_data, reads) =>
      let (http_version, stream_header) := IStream.readWord ⟨response_data, true⟩ []
      let (status_code, stream_header) := stream_header.readUnsigned status_code
      let (_, status_message, stream_header) := stream_header.getline '\n'
      if "HTTP/".toList ≠ http_version.take 5 ∧ "OK".toList ≠ status_message then (-1, "Invalid response".toList)
      else if 200 ≠ status_code then ((Int32.ofNat status_code).toInt, "Response returned with status code != 200 ".toList)
      else
        let response_data := (readHeaders stream_header).buf ++ reads.flatten
        if !eof then (-1, message)
        else if 0 < response_data.length then (0, response_data)
        else (0, strRspData)

structure CHttpClient where
  m_strHost : List Char
  m_strPort : List Char
  m_strAuthorization : List Char

def strBoundary : List Char := "----Zn516969Mx0KrHhG0X99Yef9r8JZsRJSXC".toList
def strMultiPartContentType : List Char := "multipart/form-data".toList

namespace CHttpClient

def BuildHeard (cli : CHttpClient) (strPage strContentType strReqType : List Char) : List Char :=
  strReqType ++ " ".toList ++ strPage ++ " HTTP/1.1".toList ++ CRLF ++
    "Host: ".toList ++ cli.m_strHost ++ ":".toList ++ cli.m_strPort ++ CRLF ++
    "Authorization: ".toList ++ cli.m_strAuthorization ++ CRLF ++
    "Accept: */*".toList ++ CRLF ++
    "Connection: close".toList ++ CRLF ++
    "Content-Type: ".toList ++ strContentType ++
    (if strMultiPartContentType = strContentType then "; boundary=".toList ++ strBoundary else []) ++ CRLF

def BuildCommReqPkg (cli : CHttpClient) (strPage strReqData strContentType strReqType : List Char) : List Char :=
  cli.BuildHeard strPage strContentType strReqType ++
    "Content-Length: ".toList ++ (toString strReqData.length).toList ++ CRLF ++ CRLF ++ strReqData

/-- `net` is what comes of a request. -/
def Get (cli : CHttpClient) (net : List Char → Net) (strPage strReqData : List Char) (status_code : Nat)
    (strRspData : List Char) : Int × List Char :=
  PostOrGetData (net (cli.BuildCommReqPkg strPage strReqData "application/json".toList "GET".toList)) status_code
    strRspData

end CHttpClient

end Perception.Http
