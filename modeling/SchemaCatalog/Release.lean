/-! The name and version under which the catalog presents itself. -/

namespace SchemaCatalog.Release

def name : String := "federated-catalog"

def version : String := "0.0.1"

end SchemaCatalog.Release
