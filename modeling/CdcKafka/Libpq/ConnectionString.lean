import CdcKafka.Lib.Wire

/-! The connection strings of libpq: `parse_connection_string` of `fe-connect.c`, with key=value pairs or
as a URI. -/

namespace CdcKafka.Libpq

open CdcKafka.Lib

def quote : UInt8 := 0x27

def backslash : UInt8 := 0x5c

def user : Bytes := ascii ['u', 's', 'e', 'r']

def dbname : Bytes := ascii ['d', 'b', 'n', 'a', 'm', 'e']

end CdcKafka.Libpq
