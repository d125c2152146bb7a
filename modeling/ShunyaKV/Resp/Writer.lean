import ShunyaKV.Lib.Decimal
import ShunyaKV.Shard.State

/-!
The bytes the RESP writers put on a stream.
-/

namespace ShunyaKV.Resp

open ShunyaKV.Lib.Decimal ShunyaKV.Shard

def writeCrlf : Bytes := ascii "\r\n"

def writeSimple (msg : Bytes) : Bytes := ascii "+" ++ msg ++ writeCrlf

def writeError (msg : Bytes) : Bytes := ascii "-" ++ msg ++ writeCrlf

def writeBulk (bytes : Bytes) : Bytes :=
  ascii "$" ++ decimal bytes.length ++ writeCrlf ++ bytes ++ writeCrlf

def writeNull : Bytes := ascii "$-1\r\n"

def writeArrayBulk (items : List Bytes) : Bytes :=
  ascii "*" ++ decimal items.length ++ writeCrlf ++ items.flatMap writeBulk

end ShunyaKV.Resp
